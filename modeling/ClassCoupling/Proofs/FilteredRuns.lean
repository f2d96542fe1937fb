import ClassCoupling.ClassFile.Builder
import ClassCoupling.Proofs.ArchiveMembers
import ClassCoupling.Proofs.AscendingSets
import ClassCoupling.Proofs.NamedGraph

/-!
Runs over the same inputs with a stricter filter. A filter is asked at three places:
for the names of archive members, for the references of a class, and for the names of the
classes. The first asks only whether nested classes count. The second commutes with
decoding and the third with keeping the first class of each name. So the stricter
run gives the subgraph that the accepted classes of the other run induce, and of one class
it changes the references alone.
-/
namespace ClassCoupling

section Lists

variable {α : Type} {key : α → String}

theorem filter_filter_of_imp {narrow wide : α → Bool}
    (stricter : ∀ item, narrow item = true → wide item = true) (items : List α) :
    (items.filter wide).filter narrow = items.filter narrow := by
  rw [List.filter_filter]
  apply List.filter_congr
  intro item _
  cases accepted : narrow item with
  | false => rfl
  | true => rw [stricter item accepted, Bool.and_self]

theorem firstBy_filter (accepts : String → Bool) (items : List α) :
    firstBy key (items.filter fun item => accepts (key item)) =
      (firstBy key items).filter fun item => accepts (key item) := by
  induction items with
  | nil => rfl
  | cons item items ih =>
      simp only [List.filter_cons, firstBy]
      split
      case isTrue =>
        simp only [firstBy, ih, List.filter_filter, Bool.and_comm]
      case isFalse refused =>
        rw [ih, List.filter_comm]
        symm
        apply List.filter_eq_self.mpr
        intro other kept
        have accepted : accepts (key other) = true := (List.mem_filter.mp kept).2
        simp only [ne_eq, decide_eq_true_eq]
        intro same
        exact refused (same ▸ accepted)

theorem firstBy_map {change : α → α} (keeps : ∀ item, key (change item) = key item)
    (items : List α) : firstBy key (items.map change) = (firstBy key items).map change := by
  induction items with
  | nil => rfl
  | cons item items ih =>
      simp only [List.map_cons, firstBy, ih, keeps, List.filter_map, Function.comp_def]

end Lists

def ClassRecord.restrict (filter : NameFilter) (record : ClassRecord) : ClassRecord :=
  { record with references := record.references.filter filter.accepts }

theorem ClassRecord.mem_references_restrict {filter : NameFilter} {record : ClassRecord}
    {name : String} :
    name ∈ (record.restrict filter).references.toList ↔
      name ∈ record.references.toList ∧ filter.accepts name = true :=
  List.mem_filter

namespace Graph

/-- The part of a graph that a filter accepts: its classes, the edges between accepted names, and
the nodes that these need. -/
structure Induces (filter : NameFilter) (whole part : Graph) : Prop where
  found_eq : part.found = (whole.found.filter fun record => filter.accepts record.name).map
    (ClassRecord.restrict filter)
  refers_iff : ∀ source target, part.Refers source target ↔
    whole.Refers source target ∧ filter.accepts source = true ∧ filter.accepts target = true
  named_iff : ∀ name, name ∈ part.names ↔
    name ∈ whole.found.map ClassRecord.name ∧ filter.accepts name = true ∨
      ∃ source, whole.Refers source name ∧ filter.accepts source = true ∧
        filter.accepts name = true
  accepted : ∀ name ∈ part.names, filter.accepts name = true

section Restricted

variable (filter : NameFilter) (records : List ClassRecord)

def restrictAll : List ClassRecord :=
  (records.filter fun record => filter.accepts record.name).map (ClassRecord.restrict filter)

theorem kept_restrictAll : kept (restrictAll filter records) = restrictAll filter (kept records) := by
  have named : ∀ record, (ClassRecord.restrict filter record).name = record.name := fun _ => rfl
  rw [kept, restrictAll, firstBy_map named, firstBy_filter]
  rfl

theorem mem_restrictAll_iff {record : ClassRecord} :
    record ∈ restrictAll filter records ↔
      ∃ whole ∈ records, filter.accepts whole.name = true ∧ whole.restrict filter = record := by
  simp only [restrictAll, List.mem_map, List.mem_filter, and_assoc]

theorem refers_restrictAll_iff {source target : String} :
    (assemble (restrictAll filter records)).Refers source target ↔
      (assemble records).Refers source target ∧ filter.accepts source = true ∧
        filter.accepts target = true := by
  simp only [refers_assemble_iff, kept_restrictAll, mem_restrictAll_iff]
  constructor
  · rintro ⟨distinct, _, ⟨record, present, accepted, rfl⟩, rfl, mentioned⟩
    rw [ClassRecord.mem_references_restrict] at mentioned
    exact ⟨⟨distinct, record, present, rfl, mentioned.1⟩, accepted, mentioned.2⟩
  · rintro ⟨⟨distinct, record, present, rfl, mentioned⟩, sourceAccepted, targetAccepted⟩
    exact ⟨distinct, _, ⟨record, present, sourceAccepted, rfl⟩, rfl,
      ClassRecord.mem_references_restrict.mpr ⟨mentioned, targetAccepted⟩⟩

theorem mem_names_restrictAll_iff {name : String} :
    name ∈ (assemble (restrictAll filter records)).names ↔
      name ∈ (kept records).map ClassRecord.name ∧ filter.accepts name = true ∨
        ∃ source, (assemble (restrictAll filter records)).Refers source name := by
  have decoded : name ∈ (restrictAll filter (kept records)).map ClassRecord.name ↔
      name ∈ (kept records).map ClassRecord.name ∧ filter.accepts name = true := by
    simp only [List.mem_map, mem_restrictAll_iff]
    constructor
    · rintro ⟨_, ⟨record, present, accepted, rfl⟩, rfl⟩
      exact ⟨⟨record, present, rfl⟩, accepted⟩
    · rintro ⟨⟨record, present, rfl⟩, accepted⟩
      exact ⟨_, ⟨record, present, accepted, rfl⟩, rfl⟩
  rw [mem_names_assemble_iff, kept_restrictAll, decoded]
  constructor
  · rintro (found | ⟨record, present, mentioned⟩)
    · exact .inl found
    · -- A class that mentions itself is a node already.
      by_cases self : record.name = name
      · exact .inl (decoded.mp (self ▸ List.mem_map_of_mem present))
      · refine .inr ⟨record.name, (refers_assemble_iff _).mpr ⟨self, record, ?_, rfl, mentioned⟩⟩
        rwa [kept_restrictAll]
  · rintro (found | ⟨source, edge⟩)
    · exact .inl found
    · obtain ⟨-, record, present, -, mentioned⟩ := (refers_assemble_iff _).mp edge
      exact .inr ⟨record, kept_restrictAll filter records ▸ present, mentioned⟩

theorem assemble_restrictAll_induces :
    Induces filter (assemble records) (assemble (restrictAll filter records)) := by
  have named : ∀ name, name ∈ (assemble (restrictAll filter records)).names ↔
      name ∈ (assemble records).found.map ClassRecord.name ∧ filter.accepts name = true ∨
        ∃ source, (assemble records).Refers source name ∧ filter.accepts source = true ∧
          filter.accepts name = true := by
    intro name
    simp only [mem_names_restrictAll_iff, refers_restrictAll_iff, found_assemble]
  refine ⟨?_, fun _ _ => refers_restrictAll_iff filter records, named, ?_⟩
  · rw [found_assemble, found_assemble, kept_restrictAll, restrictAll]
  · intro name present
    obtain ⟨-, accepted⟩ | ⟨source, -, -, accepted⟩ := (named name).mp present
    · exact accepted
    · exact accepted

end Restricted

end Graph

def Contribution.restrict (filter : NameFilter) (contribution : Contribution) : Contribution :=
  { contribution with records := contribution.records.map (ClassRecord.restrict filter) }

theorem Contribution.concat_restrict (filter : NameFilter) (contributions : List Contribution) :
    concat (contributions.map (restrict filter)) = (concat contributions).restrict filter := by
  induction contributions with
  | nil => rfl
  | cons contribution contributions ih =>
      simp only [List.map_cons, concat_cons, ih, restrict, List.map_append]

section Stricter

variable {narrow wide : NameFilter}

theorem ClassRecord.referencesOf_filter (name : String) (references : List String)
    (accepts : String → Bool) :
    referencesOf name (references.filter accepts) =
      (referencesOf name references).filter accepts := by
  rw [referencesOf, referencesOf, ← Ascending.ofList_filter, List.filter_filter, List.filter_filter]
  simp only [Bool.and_comm]

variable (stricter : ∀ name, narrow.accepts name = true → wide.accepts name = true)

include stricter

theorem ClassFile.toRecord_of_stricter (file : ClassFile) (origin : Option String) :
    file.toRecord narrow origin = ClassRecord.restrict narrow <$> file.toRecord wide origin := by
  have references (name : String) (names : List String) :
      ClassRecord.referencesOf name (names.filter narrow.accepts) =
        (ClassRecord.referencesOf name (names.filter wide.accepts)).filter narrow.accepts := by
    rw [← ClassRecord.referencesOf_filter, filter_filter_of_imp stricter]
  simp only [toRecord, map_bind, map_pure, ClassRecord.restrict, references]

theorem ClassFile.decode_of_stricter (origin : Option String) (bytes : List UInt8) :
    decode narrow origin bytes = ClassRecord.restrict narrow <$> decode wide origin bytes := by
  simp only [decode, map_bind, toRecord_of_stricter stricter]

theorem Contribution.ofUnit_of_stricter (unit : ClassUnit) :
    ofUnit narrow unit = (ofUnit wide unit).restrict narrow := by
  rw [ofUnit, ofUnit, ClassFile.decode_of_stricter stricter]
  cases ClassFile.decode wide unit.origin unit.bytes <;> rfl

theorem Contribution.ofOpened_of_stricter (opened : Opened) :
    ofOpened narrow opened = (ofOpened wide opened).restrict narrow := by
  have units : opened.units.map (ofUnit narrow) =
      (opened.units.map (ofUnit wide)).map (restrict narrow) := by
    simp only [List.map_map, List.map_inj_left, Function.comp_apply, ofUnit_of_stricter stricter,
      implies_true]
  rw [ofOpened, units, concat_restrict]
  rfl

end Stricter

section OneClass

theorem except_map_eq_error_iff {ε α β : Type} {change : α → β} {result : Except ε α} {fault : ε} :
    change <$> result = .error fault ↔ result = .error fault := by
  cases result with
  | error other => simp
  | ok value => simp

theorem except_map_eq_ok_iff {ε α β : Type} {change : α → β} {result : Except ε α} {changed : β} :
    change <$> result = .ok changed ↔ ∃ value, result = .ok value ∧ changed = change value := by
  cases result with
  | error fault => simp
  | ok value => simp [eq_comm]

theorem ClassFile.toRecord_of_origin (file : ClassFile) (filter : NameFilter)
    (origin other : Option String) :
    file.toRecord filter other =
      (fun record => { record with origin := other }) <$> file.toRecord filter origin := by
  simp only [toRecord, map_bind, map_pure]

theorem ClassFile.decode_of_origin (filter : NameFilter) (origin other : Option String)
    (bytes : List UInt8) :
    decode filter other bytes =
      (fun record => { record with origin := other }) <$> decode filter origin bytes := by
  simp only [decode, map_bind, ← toRecord_of_origin]

/-- The filter decides which references are listed and the origin is written down. Neither has
a part in whether bytes are decoded, in the fault, or in anything else of the class. -/
theorem Decoder.filter_and_origin_confined {σ τ : Type} (decoder : Decoder σ) (bytes : List UInt8)
    (origin : Option String) (state : σ) (unheard : τ) :
    (∀ fault, (decoder.decode bytes origin state).1 = .error fault ↔
      (({} : Decoder τ).decode bytes origin unheard).1 = .error fault) ∧
    (∀ record, (decoder.decode bytes origin state).1 = .ok record ↔
      ∃ whole, (({} : Decoder τ).decode bytes origin unheard).1 = .ok whole ∧
        record = { whole with references := whole.references.filter decoder.filter.accepts }) ∧
    (∀ other fault, (decoder.decode bytes other state).1 = .error fault ↔
      (decoder.decode bytes origin state).1 = .error fault) ∧
    (∀ other moved, (decoder.decode bytes other state).1 = .ok moved ↔
      ∃ record, (decoder.decode bytes origin state).1 = .ok record ∧
        moved = { record with origin := other }) := by
  have filtered : ClassFile.decode decoder.filter origin bytes =
      ClassRecord.restrict decoder.filter <$> ClassFile.decode {} origin bytes :=
    ClassFile.decode_of_stricter (fun name _ => NameFilter.accepts_default name) origin bytes
  simp only [decode_fst]
  refine ⟨?_, ?_, ?_, ?_⟩
  · intro fault
    rw [filtered, except_map_eq_error_iff]
  · intro record
    rw [filtered, except_map_eq_ok_iff]
    rfl
  · intro other fault
    rw [ClassFile.decode_of_origin decoder.filter origin other, except_map_eq_error_iff]
  · intro other moved
    rw [ClassFile.decode_of_origin decoder.filter origin other, except_map_eq_ok_iff]

end OneClass

section Opening

variable {narrow wide : NameFilter} (sameInner : narrow.includeInner = wide.includeInner)

include sameInner

theorem NameFilter.acceptsInner_congr : narrow.acceptsInner = wide.acceptsInner := by
  funext name
  rw [acceptsInner, acceptsInner, sameInner]

theorem Archive.Member.outcome_congr : Member.outcome narrow = Member.outcome wide := by
  funext member
  rw [outcome, outcome, NameFilter.acceptsInner_congr sameInner]

theorem Volume.openInput_congr (volume : Volume) :
    volume.openInput narrow = volume.openInput wide := by
  funext input
  simp only [openInput, archiveContents, Archive.Contents.read, Archive.Contents.ofMembers,
    Archive.Member.outcome_congr sameInner]

end Opening

structure Analysis.Narrows (filter : NameFilter) (whole part : Analysis) : Prop where
  failures_eq : part.failures = whole.failures
  skipped_eq : part.skipped = whole.skipped
  inputs_eq : part.inputs = whole.inputs
  induces : whole.graph.Induces filter part.graph

namespace Analyzer

variable {σ τ : Type} {wide : Analyzer σ} {narrow : Analyzer τ}
  (stricter : ∀ name, narrow.filter.accepts name = true → wide.filter.accepts name = true)

include stricter

theorem contribution_of_stricter (opened : List Opened) :
    narrow.contribution opened = (wide.contribution opened).restrict narrow.filter := by
  rw [contribution, contribution, ← Contribution.concat_restrict, List.map_map]
  congr 1
  apply List.map_congr_left
  intro item _
  exact Contribution.ofOpened_of_stricter stricter item

theorem analyzeOpened_narrows (opened : List Opened) :
    (wide.analyzeOpened opened).Narrows narrow.filter (narrow.analyzeOpened opened) := by
  have same := contribution_of_stricter stricter opened
  have records : (narrow.contribution opened).records.filter
        (fun record => narrow.filter.accepts record.name) =
      Graph.restrictAll narrow.filter ((wide.contribution opened).records.filter
        fun record => wide.filter.accepts record.name) := by
    have imp : ∀ record : ClassRecord, narrow.filter.accepts record.name = true →
        wide.filter.accepts record.name = true := fun record => stricter record.name
    rw [same, Graph.restrictAll, filter_filter_of_imp imp]
    exact List.filter_map
  rw [analyzeOpened_eq, analyzeOpened_eq]
  constructor
  case failures_eq =>
    rw [same]
    rfl
  case skipped_eq =>
    rw [same]
    rfl
  case inputs_eq => rfl
  case induces =>
    rw [records]
    exact Graph.assemble_restrictAll_induces ..

end Analyzer

/-- Filtering a run more strictly takes the subgraph that the accepted names induce, and the nodes
of a run have names that its filter accepts. -/
theorem Analyzer.stricter_run_is_induced {σ τ : Type} (wide : Analyzer σ) (narrow : Analyzer τ)
    (sameInner : narrow.filter.includeInner = wide.filter.includeInner)
    (stricter : ∀ name, narrow.filter.accepts name = true → wide.filter.accepts name = true)
    (volume : Volume) (inputs : List Input) :
    (wide.analyzeInputs volume inputs).Narrows narrow.filter (narrow.analyzeInputs volume inputs) ∧
      ∀ name ∈ (wide.analyzeInputs volume inputs).graph.names, wide.filter.accepts name = true := by
  have opened : narrow.openAll volume inputs = wide.openAll volume inputs := by
    rw [openAll, openAll, volume.openInput_congr sameInner]
  rw [analyzeInputs, analyzeInputs, opened]
  constructor
  · exact analyzeOpened_narrows stricter _
  · exact (analyzeOpened_narrows (fun _ accepted => accepted) _).induces.accepted

namespace Analyzer

def pageOfY : List UInt8 :=
  (ClassBuilder.run "x/Y" [.classReference "x/V", .classReference "z/W"]).2.image

def pageOfW : List UInt8 := (ClassBuilder.run "z/W" [.classReference "x/Y"]).2.image

def desk : Volume where
  items := (({} : Std.TreeMap Place Item).insert ["Y.class"] (.file pageOfY)).insert ["W.class"]
    (.file pageOfW)

def pages : List Input := [⟨"Y.class", .classFile⟩, ⟨"W.class", .classFile⟩]

theorem openAll_desk {σ : Type} (analyzer : Analyzer σ) :
    analyzer.openAll desk pages =
      [{ units := [⟨"Y.class", none, pageOfY⟩] }, { units := [⟨"W.class", none, pageOfW⟩] }] := by
  have stepY : Volume.OneStep "Y.class" := by constructor <;> decide +kernel
  have stepW : Volume.OneStep "W.class" := by constructor <;> decide +kernel
  have readY : desk.read .isADirectory "Y.class" = .ok pageOfY :=
    stepY.read_eq rfl rfl .isADirectory
  have readW : desk.read .isADirectory "W.class" = .ok pageOfW :=
    stepW.read_eq rfl rfl .isADirectory
  simp only [openAll, pages, List.map_cons, List.map_nil, Volume.openInput, readY, readW]

theorem stricter_run_is_induced_desk :
    let wide : Analyzer Unit := {}
    let narrow : Analyzer Unit := { filter := { includes := ["x."] } }
    narrow.filter.includeInner = wide.filter.includeInner ∧
      (∀ name, narrow.filter.accepts name = true → wide.filter.accepts name = true) ∧
      (wide.analyzeInputs desk pages).graph.names = ["x.Y", "z.W", "x.V"] ∧
      (narrow.analyzeInputs desk pages).graph.names = ["x.Y", "x.V"] ∧
      (wide.analyzeInputs desk pages).Narrows narrow.filter (narrow.analyzeInputs desk pages) ∧
      ∀ name ∈ (wide.analyzeInputs desk pages).graph.names, wide.filter.accepts name = true := by
  intro wide narrow
  have stricter : ∀ name, narrow.filter.accepts name = true → wide.filter.accepts name = true :=
    fun name _ => NameFilter.accepts_default name
  refine ⟨rfl, stricter, ?_, ?_, stricter_run_is_induced wide narrow rfl stricter desk pages⟩
  · rw [analyzeInputs, openAll_desk]
    decide +kernel
  · rw [analyzeInputs, openAll_desk]
    decide +kernel

end Analyzer

end ClassCoupling
