import ClassCoupling.Proofs.ClassDecoding
import ClassCoupling.Proofs.NamedGraph

/-!
Stand-ins and the classes that look like them. The number of a node tells whether its class was
found. Its record tells the same by its version, origin and source, and these a class file
chooses itself: one of version zero that was found outside of any archive and names `Unknown`
as its source decodes to a record that looks like a placeholder. Of all other nodes the two
say the same.
-/
namespace ClassCoupling

def ClassRecord.DecodedFrom (origin : Option String) (bytes : List UInt8) (record : ClassRecord) :
    Prop :=
  ∃ (σ : Type) (decoder : Decoder σ) (state : σ), (decoder.decode bytes origin state).1 = .ok record

namespace ClassFile

/-- The file has version zero and the source that placeholders have. -/
def LooksUnknown (file : ClassFile) : Prop :=
  file.major = 0 ∧ file.SourceIs (some ClassRecord.unknownSource)

/-- The bytes of a file that looks unknown, from no archive. -/
def Disguised (origin : Option String) (bytes : List UInt8) : Prop :=
  origin = none ∧ ∃ (file : ClassFile) (trailing : List UInt8),
    bytes = file.encode ++ trailing ∧ file.Fits ∧ file.LooksUnknown

theorem SourceIs.unique {file : ClassFile} {source other : Option String}
    (sourceIs : file.SourceIs source) (otherIs : file.SourceIs other) : source = other := by
  rw [← sourceFile_eq_ok_iff] at sourceIs otherIs
  exact Except.ok.inj (sourceIs.symm.trans otherIs)

theorem Describes.isPlaceholder_iff {file : ClassFile} {filter : NameFilter}
    {origin : Option String} {record : ClassRecord}
    (describes : file.Describes filter origin record) :
    record.isPlaceholder = true ↔ origin = none ∧ file.LooksUnknown := by
  have source : record.sourceFile = some ClassRecord.unknownSource ↔
      file.SourceIs (some ClassRecord.unknownSource) :=
    ⟨fun same => same ▸ describes.source, fun sourceIs => describes.source.unique sourceIs⟩
  rw [ClassRecord.isPlaceholder, Bool.and_eq_true, Bool.and_eq_true, beq_iff_eq, beq_iff_eq,
    Option.isNone_iff_eq_none, describes.major, describes.origin, source, LooksUnknown]
  exact and_assoc.trans and_left_comm

end ClassFile

theorem ClassRecord.DecodedFrom.isPlaceholder_iff {origin : Option String} {bytes : List UInt8}
    {record : ClassRecord} (decoded : record.DecodedFrom origin bytes) :
    record.isPlaceholder = true ↔ ClassFile.Disguised origin bytes := by
  obtain ⟨σ, decoder, state, success⟩ := decoded
  rw [Decoder.decode_fst, ClassFile.decode_eq_ok_iff] at success
  obtain ⟨file, trailing, split, fits, linked, recorded⟩ := success
  rw [(ClassFile.toRecord_inverts linked recorded).2.isPlaceholder_iff, ClassFile.Disguised]
  refine and_congr_right fun _ => ⟨fun unknown => ⟨file, trailing, split, fits, unknown⟩, ?_⟩
  intro again
  obtain ⟨other, rest, otherSplit, otherFits, unknown⟩ := again
  -- The bytes begin with one file only.
  obtain ⟨same, -⟩ := ClassFile.encode_selfDelimiting fits otherFits (split.symm.trans otherSplit)
  exact same ▸ unknown

namespace Graph

structure TellsStandIns (kept : List ClassRecord) (graph : Graph) : Prop where
  standIn_looks : ∀ id < graph.size, graph.isPlaceholder id = true →
    (graph.record id).isPlaceholder = true
  decoded_from : ∀ id < graph.size, graph.isPlaceholder id = false →
    ∃ origin bytes, (graph.record id).DecodedFrom origin bytes
  decoded_looks_iff : ∀ id < graph.size, graph.isPlaceholder id = false →
    ∀ origin bytes, (graph.record id).DecodedFrom origin bytes →
      ((graph.record id).isPlaceholder = true ↔ ClassFile.Disguised origin bytes)
  agree_iff : (∀ id < graph.size, graph.isPlaceholder id = (graph.record id).isPlaceholder) ↔
    ∀ record ∈ kept, ∀ origin bytes, record.DecodedFrom origin bytes →
      ¬ ClassFile.Disguised origin bytes

section Assembled

variable {records : List ClassRecord} {id : Nat}

theorem record_assemble_cases (bound : id < (assemble records).size) :
    ((assemble records).record id ∈ kept records ∧
        (assemble records).isPlaceholder id = false) ∨
      (assemble records).record id = .placeholder ((assemble records).name id) ∧
        (assemble records).isPlaceholder id = true := by
  obtain ⟨record, present, -, same, placed⟩ | ⟨-, same, placed⟩ :=
    node_cases records ((assemble_sound records).find?_name bound)
  · exact .inl ⟨same ▸ present, placed⟩
  · exact .inr ⟨same, placed⟩

theorem isPlaceholder_of_standIn (bound : id < (assemble records).size)
    (placed : (assemble records).isPlaceholder id = true) :
    ((assemble records).record id).isPlaceholder = true := by
  obtain ⟨-, found⟩ | ⟨same, -⟩ := record_assemble_cases bound
  · rw [found] at placed
    cases placed
  · rw [same]
    exact ClassRecord.placeholder_isPlaceholder _

theorem mem_kept_of_found (bound : id < (assemble records).size)
    (found : (assemble records).isPlaceholder id = false) :
    (assemble records).record id ∈ kept records := by
  obtain ⟨present, -⟩ | ⟨-, placed⟩ := record_assemble_cases bound
  · exact present
  · rw [found] at placed
    cases placed

theorem exists_node_of_mem_kept {record : ClassRecord} (present : record ∈ kept records) :
    ∃ id < (assemble records).size, (assemble records).record id = record ∧
      (assemble records).isPlaceholder id = false := by
  obtain ⟨id, place⟩ := List.mem_iff_getElem?.mp present
  have bound := (List.getElem?_eq_some_iff.mp place).1
  refine ⟨id, Nat.lt_of_lt_of_le bound (assemble_progress records).length_le,
    record_assemble records place, ?_⟩
  rw [isPlaceholder, decoded_assemble]
  simpa using bound

theorem isPlaceholder_agrees_iff :
    (∀ id < (assemble records).size,
        (assemble records).isPlaceholder id = ((assemble records).record id).isPlaceholder) ↔
      ∀ record ∈ kept records, ¬ record.isPlaceholder = true := by
  constructor
  · intro agrees record present looks
    obtain ⟨id, bound, same, found⟩ := exists_node_of_mem_kept present
    have agree := agrees id bound
    rw [same, found, looks] at agree
    cases agree
  · intro apart id bound
    cases placed : (assemble records).isPlaceholder id with
    | true => exact (isPlaceholder_of_standIn bound placed).symm
    | false =>
        have looks := apart _ (mem_kept_of_found bound placed)
        exact (Bool.eq_false_of_not_eq_true looks).symm

end Assembled

/-- In the graph of decoded classes every stand-in looks like one, and of the classes that were
decoded those look like one whose bytes are disguised. -/
theorem standIns_told_unless_disguised (records : List ClassRecord)
    (decoded : ∀ record ∈ records, ∃ origin bytes, record.DecodedFrom origin bytes) :
    (assemble records).TellsStandIns (kept records) where
  standIn_looks := fun _ => isPlaceholder_of_standIn
  decoded_from := by
    intro id bound found
    exact decoded _ (mem_of_mem_firstBy _ (mem_kept_of_found bound found))
  decoded_looks_iff := fun _ _ _ _ _ made => made.isPlaceholder_iff
  agree_iff := by
    rw [isPlaceholder_agrees_iff]
    constructor
    · intro apart record present origin bytes made
      exact mt made.isPlaceholder_iff.mpr (apart record present)
    · intro plain record present
      obtain ⟨origin, bytes, made⟩ := decoded record (mem_of_mem_firstBy _ present)
      exact mt made.isPlaceholder_iff.mp (plain record present origin bytes made)

end Graph

def ClassFile.masked : ClassFile where
  minor := 0
  major := 0
  pool := .ofConstants
    [.utf8 (Utf8.encode "m/M"), .classInfo 1, .utf8 (Utf8.encode "SourceFile"),
      .utf8 (Utf8.encode "Unknown")]
  access := 0x0001
  thisClass := 2
  superClass := 0
  interfaces := []
  fields := []
  methods := []
  attributes := [⟨3, [0, 4]⟩]

theorem ClassFile.masked_decodedFrom :
    (ClassRecord.placeholder "m.M").DecodedFrom none masked.encode :=
  ⟨Unit, {}, (), by decide +kernel⟩

namespace Graph

theorem decoded_class_looks_like_standIn :
    (ClassRecord.placeholder "m.M").DecodedFrom none ClassFile.masked.encode ∧
      (assemble [.placeholder "m.M"]).isPlaceholder 0 = false ∧
      ((assemble [.placeholder "m.M"]).record 0).isPlaceholder = true :=
  ⟨ClassFile.masked_decodedFrom, by decide +kernel, by decide +kernel⟩

theorem standIns_told_unless_disguised_masked :
    ∃ record : ClassRecord, record.DecodedFrom none ClassFile.sample.encode ∧
      (assemble [record, .placeholder "m.M"]).names = ["a.A", "m.M", "b.B", "c.C", "d.D", "e.E"] ∧
      (assemble [record, .placeholder "m.M"]).decoded = 2 ∧
      (assemble [record, .placeholder "m.M"]).TellsStandIns
        (kept [record, .placeholder "m.M"]) := by
  let record : ClassRecord :=
    { name := "a.A", major := 52, sourceFile := some "A.java", isAbstract := true,
      references := .ofList ["b.B", "c.C", "d.D", "e.E"] }
  have made : record.DecodedFrom none ClassFile.sample.encode := ⟨Unit, {}, (), by decide +kernel⟩
  refine ⟨record, made, by decide +kernel, by decide +kernel, ?_⟩
  refine standIns_told_unless_disguised [record, .placeholder "m.M"] ?_
  intro item listed
  obtain same | last := List.mem_cons.mp listed
  · exact ⟨none, _, same ▸ made⟩
  · exact ⟨none, _, List.mem_singleton.mp last ▸ ClassFile.masked_decodedFrom⟩

end Graph

end ClassCoupling
