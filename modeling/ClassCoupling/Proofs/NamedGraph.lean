import ClassCoupling.Proofs.GraphAssembly
import Mathlib.Data.List.Nodup

/-!
An assembled graph seen through the names of its nodes. The numbers of the nodes depend on
the order in which the records come. The names do not: a name is that of a node when a
kept record has it or refers to it, and one name refers to another when the kept record
of the one says so.
-/
namespace ClassCoupling

theorem eq_map_range {α : Type} {items : List α} {count : Nat} {value : Nat → α}
    (length : items.length = count)
    (reads : ∀ place item, items[place]? = some item → item = value place) :
    items = (List.range count).map value := by
  apply List.ext_getElem
  · rw [length, List.length_map, List.length_range]
  · intro place bound _
    rw [List.getElem_map, List.getElem_range]
    exact reads place _ (List.getElem?_eq_getElem bound)

namespace Graph

def found (graph : Graph) : List ClassRecord := graph.records.take graph.decoded

/-- The class of one name has an edge to the class of another. -/
def Refers (graph : Graph) (source target : String) : Prop :=
  ∃ id other, graph.find? source = some id ∧ graph.find? target = some other ∧
    graph.dependsOn id other = true

theorem records_eq_map (graph : Graph) :
    graph.records = (List.range graph.size).map graph.record := by
  apply eq_map_range (length_records graph)
  intro id record present
  rw [record_eq, present]
  rfl

theorem mem_records_iff {graph : Graph} {record : ClassRecord} :
    record ∈ graph.records ↔ ∃ id < graph.size, graph.record id = record := by
  rw [records_eq_map, List.mem_map]
  simp only [List.mem_range]

section Neighbours

variable {graph : Graph}

theorem listed_ascends (side : Node → Std.TreeSet Nat) (graph : Graph) (id : Nat) :
    (listed side graph id).Pairwise (· < ·) := by
  unfold listed
  cases graph.nodes[id]? with
  | none => exact .nil
  | some node => exact Std.TreeSet.ordered_toList.imp Nat.compare_eq_lt.mp

theorem efferents_ascend (graph : Graph) (id : Nat) :
    (graph.efferents id).Pairwise (· < ·) := by
  rw [efferents_eq_listed]
  exact listed_ascends ..

theorem afferents_ascend (graph : Graph) (id : Nat) :
    (graph.afferents id).Pairwise (· < ·) := by
  rw [afferents_eq_listed]
  exact listed_ascends ..

theorem Sound.find?_name (sound : graph.Sound) {id : Nat} (bound : id < graph.size) :
    graph.find? (graph.name id) = some id :=
  (sound.find_iff _ id).mpr (getElem?_names_iff.mpr ⟨bound, rfl⟩)

theorem Sound.name_of_find? (sound : graph.Sound) {name : String} {id : Nat}
    (located : graph.find? name = some id) : graph.name id = name :=
  name_eq_of_getElem? ((sound.find_iff name id).mp located)

theorem Sound.nodup_map_name (sound : graph.Sound) {ids : List Nat} (ascends : ids.Pairwise (· < ·))
    (bounded : ∀ id ∈ ids, id < graph.size) : (ids.map graph.name).Nodup := by
  refine List.Nodup.map_on ?_ (ascends.imp Nat.ne_of_lt)
  intro id listed other otherListed same
  have located := sound.find?_name (bounded id listed)
  rw [same, sound.find?_name (bounded other otherListed), Option.some.injEq] at located
  exact located.symm

theorem Sound.nodup_efferent_names (sound : graph.Sound) {id : Nat} :
    ((graph.efferents id).map graph.name).Nodup :=
  sound.nodup_map_name (efferents_ascend graph id) fun _ edge => sound.efferents_lt edge

theorem Sound.nodup_afferent_names (sound : graph.Sound) {id : Nat} :
    ((graph.afferents id).map graph.name).Nodup := by
  apply sound.nodup_map_name (afferents_ascend graph id)
  intro source edge
  exact lt_size_of_mem_efferents ((sound.mirrored source id).mp edge)

theorem Sound.mem_map_name_efferents_iff (sound : graph.Sound) {name other : String} {id : Nat}
    (located : graph.find? name = some id) :
    other ∈ (graph.efferents id).map graph.name ↔ graph.Refers name other := by
  simp only [List.mem_map, mem_efferents_iff_dependsOn]
  constructor
  · rintro ⟨target, edge, rfl⟩
    have bound := sound.efferents_lt (mem_efferents_iff_dependsOn.mpr edge)
    exact ⟨id, target, located, sound.find?_name bound, edge⟩
  · rintro ⟨source, target, again, reached, edge⟩
    rw [located, Option.some.injEq] at again
    exact ⟨target, again ▸ edge, sound.name_of_find? reached⟩

theorem Sound.mem_map_name_afferents_iff (sound : graph.Sound) {name other : String} {id : Nat}
    (located : graph.find? name = some id) :
    other ∈ (graph.afferents id).map graph.name ↔ graph.Refers other name := by
  simp only [List.mem_map, sound.mirrored]
  constructor
  · rintro ⟨source, edge, rfl⟩
    exact ⟨source, id, sound.find?_name (lt_size_of_mem_efferents edge), located,
      mem_efferents_iff_dependsOn.mp edge⟩
  · rintro ⟨source, target, reached, again, edge⟩
    rw [located, Option.some.injEq] at again
    exact ⟨source, again ▸ mem_efferents_iff_dependsOn.mpr edge, sound.name_of_find? reached⟩

end Neighbours

section Assembled

variable (records : List ClassRecord)

theorem decoded_assemble : (assemble records).decoded = (kept records).length :=
  (assemble_progress records).decoded

theorem found_assemble : (assemble records).found = kept records := by
  rw [found, assemble_records, decoded_assemble, List.take_left]

theorem mem_names_assemble_iff {name : String} :
    name ∈ (assemble records).names ↔ name ∈ (kept records).map ClassRecord.name ∨
      ∃ record ∈ kept records, name ∈ record.references.toList := by
  rw [(assemble_progress records).mem_names_iff, map_snd_mentions, List.mem_flatMap]

/-- The node of a name stands for the kept record of that name, or else is a placeholder. -/
theorem node_cases {name : String} {id : Nat} (located : (assemble records).find? name = some id) :
    (∃ record ∈ kept records, record.name = name ∧ (assemble records).record id = record ∧
        (assemble records).isPlaceholder id = false) ∨
      name ∉ (kept records).map ClassRecord.name ∧
        (assemble records).record id = .placeholder name ∧
        (assemble records).isPlaceholder id = true := by
  have progress := assemble_progress records
  have named := (progress.sound.find_iff name id).mp located
  simp only [isPlaceholder, decoded_assemble]
  by_cases bound : id < (kept records).length
  · have present := List.getElem?_eq_getElem bound
    have same : (kept records)[id].name = name := by
      rw [progress.names_eq, List.getElem?_append_left (by rwa [List.length_map]),
        List.getElem?_map, present] at named
      exact Option.some.inj named
    refine .inl ⟨_, List.getElem_mem bound, same, record_assemble records present, ?_⟩
    simpa using bound
  · have placed : (kept records).length ≤ id := Nat.le_of_not_lt bound
    rw [progress.names_eq, List.getElem?_append_right (by rwa [List.length_map]),
      List.length_map] at named
    refine .inr ⟨(mem_missing_iff.mp (List.mem_of_getElem? named)).2, ?_, ?_⟩
    · rw [record_eq, progress.records, List.getElem?_append_right placed, List.getElem?_map, named]
      rfl
    · simpa using placed

theorem refers_assemble_iff {source target : String} :
    (assemble records).Refers source target ↔ source ≠ target ∧
      ∃ record ∈ kept records, record.name = source ∧ target ∈ record.references.toList := by
  have sound := assemble_sound records
  constructor
  · rintro ⟨id, other, atSource, atTarget, edge⟩
    obtain ⟨decoded, -, distinct, mentioned⟩ := (dependsOn_assemble_iff records).mp edge
    rw [sound.name_of_find? atTarget] at mentioned
    refine ⟨?_, ?_⟩
    · rintro rfl
      exact distinct (Option.some.inj (atSource.symm.trans atTarget))
    · obtain ⟨record, present, named, same, -⟩ | ⟨-, -, placed⟩ := node_cases records atSource
      · exact ⟨record, present, named, same ▸ mentioned⟩
      · simp only [isPlaceholder, decide_eq_true_eq] at placed
        omega
  · rintro ⟨distinct, record, present, rfl, mentioned⟩
    obtain ⟨id, place⟩ := List.mem_iff_getElem?.mp present
    have same := record_assemble records place
    have decoded : id < (assemble records).decoded := by
      rw [decoded_assemble]
      exact (List.getElem?_eq_some_iff.mp place).1
    have atSource : (assemble records).find? record.name = some id := by
      have bound := Nat.lt_of_lt_of_le (decoded_assemble records ▸ decoded)
        (assemble_progress records).length_le
      rw [find?_assemble_iff, name, same]
      exact ⟨bound, rfl⟩
    have known : target ∈ (assemble records).names :=
      (mem_names_assemble_iff records).mpr (.inr ⟨record, present, mentioned⟩)
    obtain ⟨other, atTarget⟩ := sound.mem_names_iff.mp known
    refine ⟨id, other, atSource, atTarget, (dependsOn_assemble_iff records).mpr ?_⟩
    rw [sound.name_of_find? atTarget, same]
    refine ⟨decoded, sound.lt_size atTarget, ?_, mentioned⟩
    rintro rfl
    exact distinct ((sound.name_of_find? atSource).symm.trans (sound.name_of_find? atTarget))

end Assembled

end Graph

end ClassCoupling
