import ClassCoupling.Proofs.CycleDetection
import ClassCoupling.Proofs.NamedGraph

/-!
The order of the records. Two graphs assembled from the same records in different orders
number their nodes differently, and their placeholders come in different orders. They
agree on all that is said by name, and a grouping whose keys are read off the
records asks for nothing else: its groups are numbered by their keys.
-/
namespace ClassCoupling

attribute [ext] Grouping

namespace Graph

theorem Sound.exists_edge_iff {graph : Graph} (sound : graph.Sound)
    {related : ClassRecord → ClassRecord → Prop} :
    (∃ source target, target ∈ graph.efferents source ∧
        related (graph.record source) (graph.record target)) ↔
      ∃ first ∈ graph.records, ∃ second ∈ graph.records,
        graph.Refers first.name second.name ∧ related first second := by
  constructor
  · rintro ⟨source, target, edge, holds⟩
    have sourceBound := lt_size_of_mem_efferents edge
    have targetBound := sound.efferents_lt edge
    refine ⟨_, mem_records_iff.mpr ⟨source, sourceBound, rfl⟩, _,
      mem_records_iff.mpr ⟨target, targetBound, rfl⟩, ?_, holds⟩
    exact ⟨source, target, sound.find?_name sourceBound, sound.find?_name targetBound,
      mem_efferents_iff_dependsOn.mp edge⟩
  · rintro ⟨first, firstIn, second, secondIn, ⟨id, other, atFirst, atSecond, edge⟩, holds⟩
    obtain ⟨source, sourceBound, rfl⟩ := mem_records_iff.mp firstIn
    obtain ⟨target, targetBound, rfl⟩ := mem_records_iff.mp secondIn
    obtain rfl : source = id := Option.some.inj ((sound.find?_name sourceBound).symm.trans atFirst)
    obtain rfl : target = other :=
      Option.some.inj ((sound.find?_name targetBound).symm.trans atSecond)
    exact ⟨source, target, mem_efferents_iff_dependsOn.mpr edge, holds⟩

section Keys

variable {κ : Type} [Ord κ] [Std.TransOrd κ] [Std.LawfulEqOrd κ]

def keyed (graph : Graph) (read : ClassRecord → κ) (id : Nat) : κ := read (graph.record id)

variable {graph : Graph} {read : ClassRecord → κ}

theorem mem_groupKeys_keyed_iff {wanted : κ} :
    wanted ∈ graph.groupKeys (graph.keyed read) ↔
      ∃ record ∈ graph.records, read record = wanted := by
  rw [mem_groupKeys_iff]
  simp only [mem_records_iff, keyed]
  constructor
  · rintro ⟨id, bound, rfl⟩
    exact ⟨_, ⟨id, bound, rfl⟩, rfl⟩
  · rintro ⟨_, ⟨id, bound, rfl⟩, rfl⟩
    exact ⟨id, bound, rfl⟩

omit [Std.TransOrd κ] [Std.LawfulEqOrd κ] in
theorem length_withKey_keyed (wanted : κ) :
    (withKey graph.size (graph.keyed read) wanted).length =
      graph.records.countP fun record => compare (read record) wanted = .eq := by
  rw [records_eq_map, List.countP_map, withKey, ← List.countP_eq_length_filter]
  rfl

theorem mem_efferents_keyed_iff (sound : graph.Sound) {place other : Nat} :
    other ∈ (graph.groupBy (graph.keyed read)).efferents place ↔
      other ≠ place ∧ ∃ first ∈ graph.records, ∃ second ∈ graph.records,
        graph.Refers first.name second.name ∧
          (graph.groupKeys (graph.keyed read))[place]? = some (read first) ∧
          (graph.groupKeys (graph.keyed read))[other]? = some (read second) := by
  rw [mem_efferents_groupBy_iff _ sound, ← sound.exists_edge_iff]
  rfl

end Keys

/-- The same records with the same references between their names, numbered in any way. -/
structure Renumbers (graph other : Graph) : Prop where
  records_perm : graph.records.Perm other.records
  refers_iff : ∀ source target, graph.Refers source target ↔ other.Refers source target

namespace Renumbers

variable {graph other : Graph} {κ : Type} [Ord κ] [Std.TransOrd κ] [Std.LawfulEqOrd κ]

theorem groupKeys_eq (same : Renumbers graph other) (read : ClassRecord → κ) :
    graph.groupKeys (graph.keyed read) = other.groupKeys (other.keyed read) := by
  apply eq_of_ascending (groupKeys_ascend ..) (groupKeys_ascend ..)
  intro wanted
  simp only [mem_groupKeys_keyed_iff, same.records_perm.mem_iff]

theorem mem_efferents_iff (same : Renumbers graph other) (sound : graph.Sound)
    (otherSound : other.Sound) (read : ClassRecord → κ) {place target : Nat} :
    target ∈ (graph.groupBy (graph.keyed read)).efferents place ↔
      target ∈ (other.groupBy (other.keyed read)).efferents place := by
  simp only [mem_efferents_keyed_iff sound, mem_efferents_keyed_iff otherSound,
    same.records_perm.mem_iff, same.refers_iff, same.groupKeys_eq read]

theorem groupAt_eq (same : Renumbers graph other) (sound : graph.Sound) (otherSound : other.Sound)
    {read : ClassRecord → κ} {place : Nat} {wanted : κ}
    (present : (graph.groupKeys (graph.keyed read))[place]? = some wanted) :
    graph.groupAt (graph.keyed read) place wanted =
      other.groupAt (other.keyed read) place wanted := by
  have presentThere : (other.groupKeys (other.keyed read))[place]? = some wanted :=
    same.groupKeys_eq read ▸ present
  have memberCount : (graph.groupAt (graph.keyed read) place wanted).memberCount =
      (other.groupAt (other.keyed read) place wanted).memberCount := by
    simp only [groupAt, length_withKey_keyed]
    exact same.records_perm.countP_eq _
  have efferents : (graph.groupAt (graph.keyed read) place wanted).efferents =
      (other.groupAt (other.keyed read) place wanted).efferents := by
    apply Ascending.eq_of_mem_iff
    intro target
    rw [efferents_groupAt _ _ present, efferents_groupAt _ _ presentThere,
      same.mem_efferents_iff sound otherSound]
  have afferents : (graph.groupAt (graph.keyed read) place wanted).afferents =
      (other.groupAt (other.keyed read) place wanted).afferents := by
    apply Ascending.eq_of_mem_iff
    intro source
    rw [afferents_groupAt _ _ present, afferents_groupAt _ _ presentThere,
      mem_afferents_groupBy_iff _ sound, mem_afferents_groupBy_iff _ otherSound,
      same.mem_efferents_iff sound otherSound]
  exact Group.ext rfl memberCount efferents afferents

theorem groupBy_eq (same : Renumbers graph other) (sound : graph.Sound) (otherSound : other.Sound)
    (read : ClassRecord → κ) :
    graph.groupBy (graph.keyed read) = other.groupBy (other.keyed read) := by
  have keys := same.groupKeys_eq read
  have groups : (graph.groupBy (graph.keyed read)).groups =
      (other.groupBy (other.keyed read)).groups := by
    apply Array.ext_getElem?
    intro place
    rw [getElem?_groups, getElem?_groups, ← keys]
    cases present : (graph.groupKeys (graph.keyed read))[place]? with
    | none => rfl
    | some wanted =>
        rw [Option.map_some, Option.map_some, same.groupAt_eq sound otherSound present]
  have ids : (graph.groupBy (graph.keyed read)).ids = (other.groupBy (other.keyed read)).ids :=
    congrArg (fun keys => Std.TreeMap.ofList keys.zipIdx) keys
  exact Grouping.ext groups ids

end Renumbers

section Reordered

variable {records others : List ClassRecord}

theorem kept_of_distinct (distinct : (records.map ClassRecord.name).Nodup) :
    kept records = records :=
  firstBy_of_nodup ClassRecord.name distinct

theorem nodup_missing (kept : List ClassRecord) (met : List String) :
    (missing kept met).Nodup := by
  have distinct := nodup_map_firstBy id (met.filter fun name => name ∉ kept.map ClassRecord.name)
  rwa [List.map_id] at distinct

theorem missing_perm (perm : records.Perm others) :
    (missing records (records.flatMap fun record => record.references.toList)).Perm
      (missing others (others.flatMap fun record => record.references.toList)) := by
  apply (List.perm_ext_iff_of_nodup (nodup_missing ..) (nodup_missing ..)).mpr
  intro name
  simp only [mem_missing_iff, List.mem_flatMap, List.mem_map, perm.mem_iff]

theorem assemble_renumbers (perm : records.Perm others)
    (distinct : (records.map ClassRecord.name).Nodup) :
    Renumbers (assemble records) (assemble others) := by
  have kept := kept_of_distinct distinct
  have keptThere := kept_of_distinct ((perm.map ClassRecord.name).nodup_iff.mp distinct)
  constructor
  case records_perm =>
    rw [assemble_records, assemble_records, kept, keptThere]
    exact perm.append ((missing_perm perm).map _)
  case refers_iff =>
    intro source target
    simp only [refers_assemble_iff, kept, keptThere, perm.mem_iff]

theorem same_node_cases (perm : records.Perm others)
    (distinct : (records.map ClassRecord.name).Nodup) {name : String} {id place : Nat}
    (here : (assemble records).find? name = some id)
    (there : (assemble others).find? name = some place) :
    (assemble records).record id = (assemble others).record place ∧
      (assemble records).isPlaceholder id = (assemble others).isPlaceholder place := by
  have cases := node_cases records here
  have casesThere := node_cases others there
  rw [kept_of_distinct distinct] at cases
  rw [kept_of_distinct ((perm.map ClassRecord.name).nodup_iff.mp distinct)] at casesThere
  -- A record with the name is among the records of both graphs or of neither.
  obtain ⟨record, present, named, same, decoded⟩ | ⟨absent, same, placed⟩ := cases
  · obtain ⟨other, presentThere, namedThere, sameThere, decodedThere⟩ | ⟨absent, -⟩ := casesThere
    · have equal : record = other := List.inj_on_of_nodup_map distinct present
        (perm.mem_iff.mpr presentThere) (named.trans namedThere.symm)
      rw [same, sameThere, equal, decoded, decodedThere]
      exact ⟨rfl, rfl⟩
    · exact absurd (named ▸ List.mem_map_of_mem (perm.mem_iff.mp present)) absent
  · obtain ⟨other, presentThere, namedThere, -⟩ | ⟨-, sameThere, placedThere⟩ := casesThere
    · exact absurd (namedThere ▸ List.mem_map_of_mem (perm.mem_iff.mpr presentThere)) absent
    · rw [same, sameThere, placed, placedThere]
      exact ⟨rfl, rfl⟩

end Reordered

structure SameNode (graph : Graph) (id : Nat) (other : Graph) (place : Nat) : Prop where
  record_eq : graph.record id = other.record place
  isPlaceholder_eq : graph.isPlaceholder id = other.isPlaceholder place
  efferents_perm :
    ((graph.efferents id).map graph.name).Perm ((other.efferents place).map other.name)
  afferents_perm :
    ((graph.afferents id).map graph.name).Perm ((other.afferents place).map other.name)
  efferentCoupling_eq : graph.efferentCoupling id = other.efferentCoupling place
  afferentCoupling_eq : graph.afferentCoupling id = other.afferentCoupling place

theorem Renumbers.neighbours_perm {graph other : Graph} (same : Renumbers graph other)
    (sound : graph.Sound) (otherSound : other.Sound) {name : String} {id place : Nat}
    (here : graph.find? name = some id) (there : other.find? name = some place) :
    ((graph.efferents id).map graph.name).Perm ((other.efferents place).map other.name) ∧
      ((graph.afferents id).map graph.name).Perm ((other.afferents place).map other.name) := by
  constructor
  · apply (List.perm_ext_iff_of_nodup sound.nodup_efferent_names otherSound.nodup_efferent_names).mpr
    intro target
    rw [sound.mem_map_name_efferents_iff here, otherSound.mem_map_name_efferents_iff there,
      same.refers_iff]
  · apply (List.perm_ext_iff_of_nodup sound.nodup_afferent_names otherSound.nodup_afferent_names).mpr
    intro source
    rw [sound.mem_map_name_afferents_iff here, otherSound.mem_map_name_afferents_iff there,
      same.refers_iff]

/-- Two graphs agree on everything but the numbers of their nodes. -/
structure AgreesByName (graph other : Graph) : Prop where
  named_iff : ∀ name, name ∈ graph.names ↔ name ∈ other.names
  same_node : ∀ name ∈ graph.names, ∃ id place, graph.find? name = some id ∧
    other.find? name = some place ∧ SameNode graph id other place
  grouping_eq : ∀ {κ : Type} [Ord κ] [Std.TransOrd κ] [Std.LawfulEqOrd κ] (read : ClassRecord → κ),
    graph.groupBy (fun id => read (graph.record id)) =
      other.groupBy (fun id => read (other.record id))
  cycles_eq : ∀ {κ : Type} [Ord κ] [Std.TransOrd κ] [Std.LawfulEqOrd κ] (read : ClassRecord → κ),
    (graph.groupBy fun id => read (graph.record id)).cycles =
      (other.groupBy fun id => read (other.record id)).cycles
  packages_eq : graph.packages = other.packages
  classes_eq : graph.classes = other.classes

theorem assemble_ignores_order (records others : List ClassRecord) (perm : records.Perm others)
    (distinct : (records.map ClassRecord.name).Nodup) :
    AgreesByName (assemble records) (assemble others) := by
  have sound := assemble_sound records
  have otherSound := assemble_sound others
  have same := assemble_renumbers perm distinct
  have named : ∀ name, name ∈ (assemble records).names ↔ name ∈ (assemble others).names :=
    fun name => (same.records_perm.map ClassRecord.name).mem_iff
  have groupings {κ : Type} [Ord κ] [Std.TransOrd κ] [Std.LawfulEqOrd κ] (read : ClassRecord → κ) :
      (assemble records).groupBy (fun id => read ((assemble records).record id)) =
        (assemble others).groupBy (fun id => read ((assemble others).record id)) :=
    same.groupBy_eq sound otherSound read
  refine ⟨named, ?_, groupings, ?_, groupings ClassRecord.package, groupings ClassRecord.name⟩
  · intro name present
    obtain ⟨id, here⟩ := sound.mem_names_iff.mp present
    obtain ⟨place, there⟩ := otherSound.mem_names_iff.mp ((named name).mp present)
    obtain ⟨record, status⟩ := same_node_cases perm distinct here there
    obtain ⟨efferents, afferents⟩ := same.neighbours_perm sound otherSound here there
    refine ⟨id, place, here, there, record, status, efferents, afferents, ?_, ?_⟩
    · simpa [efferentCoupling] using efferents.length_eq
    · simpa [afferentCoupling] using afferents.length_eq
  · intro κ _ _ _ read
    rw [groupings read]

theorem assemble_ignores_order_entangled :
    entangled.Perm entangled.reverse ∧ (entangled.map ClassRecord.name).Nodup ∧
      (assemble entangled).find? "app.Main" = some 0 ∧
      (assemble entangled.reverse).find? "app.Main" = some 2 ∧
      AgreesByName (assemble entangled) (assemble entangled.reverse) := by
  have perm : entangled.Perm entangled.reverse := entangled.reverse_perm.symm
  have distinct : (entangled.map ClassRecord.name).Nodup := by decide
  exact ⟨perm, distinct, by decide +kernel, by decide +kernel,
    assemble_ignores_order entangled entangled.reverse perm distinct⟩

end Graph

end ClassCoupling
