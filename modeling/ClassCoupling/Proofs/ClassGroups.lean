import ClassCoupling.Proofs.Coarsening
import ClassCoupling.Proofs.ReportConsistency

/-!
Grouping by class. The names of the nodes differ, so every node is alone in its group, and
two groups have an edge when one name refers to the other in the graph. Groups are
numbered in the order of their names and nodes in the order in which they came, so a
group and its node are matched by name, with the same neighbours and the same couplings.
-/
namespace ClassCoupling

namespace Graph

section Neighbours

variable {κ : Type} [Ord κ] [Std.TransOrd κ] [Std.LawfulEqOrd κ] {graph : Graph}
  {key : Nat → κ} {place : Nat} {wanted name : κ}

theorem mem_keysOf_efferents_iff (atPlace : (graph.groupKeys key)[place]? = some wanted) :
    name ∈ (graph.groupBy key).keysOf ((graph.groupBy key).efferents place) ↔
      (graph.groupBy key).DependsOn wanted name := by
  rw [mem_keysOf_groupBy_iff, dependsOn_groupBy_iff]
  constructor
  · rintro ⟨other, edge, atOther⟩
    exact ⟨place, other, atPlace, atOther, edge⟩
  · rintro ⟨start, other, atStart, atOther, edge⟩
    obtain rfl := place_unique atStart atPlace
    exact ⟨other, edge, atOther⟩

theorem mem_keysOf_afferents_iff (sound : graph.Sound)
    (atPlace : (graph.groupKeys key)[place]? = some wanted) :
    name ∈ (graph.groupBy key).keysOf ((graph.groupBy key).afferents place) ↔
      (graph.groupBy key).DependsOn name wanted := by
  rw [mem_keysOf_groupBy_iff, dependsOn_groupBy_iff]
  simp only [mem_afferents_groupBy_iff key sound]
  constructor
  · rintro ⟨other, edge, atOther⟩
    exact ⟨other, place, atOther, atPlace, edge⟩
  · rintro ⟨other, stop, atOther, atStop, edge⟩
    obtain rfl := place_unique atStop atPlace
    exact ⟨other, edge, atOther⟩

end Neighbours

/-- The group at a place stands for a node: it has the name of the node, nothing else in it,
and the neighbours of the node. -/
structure StandsFor (graph : Graph) (grouping : Grouping String) (place id : Nat) : Prop where
  key_eq : grouping.keyAt? place = some (graph.name id)
  memberCount_eq : (grouping.groups[place]?).map Group.memberCount = some 1
  efferents_perm : (grouping.keysOf (grouping.efferents place)).Perm
    ((graph.efferents id).map graph.name)
  afferents_perm : (grouping.keysOf (grouping.afferents place)).Perm
    ((graph.afferents id).map graph.name)
  efferentCoupling_eq : (grouping.efferents place).length = graph.efferentCoupling id
  afferentCoupling_eq : (grouping.afferents place).length = graph.afferentCoupling id

structure MirroredBy (graph : Graph) (grouping : Grouping String) : Prop where
  size_eq : grouping.size = graph.size
  group_of_node : ∀ id < graph.size, ∃! place, graph.StandsFor grouping place id
  node_of_group : ∀ place < grouping.size, ∃! id, id < graph.size ∧ graph.StandsFor grouping place id

section Classes

variable {graph : Graph} (sound : graph.Sound)

include sound

theorem Sound.nodup_names_of_nodes : ((List.range graph.size).map graph.name).Nodup :=
  sound.nodup_map_name List.pairwise_lt_range fun _ => List.mem_range.mp

theorem Sound.name_inj {id other : Nat} (bound : id < graph.size) (otherBound : other < graph.size)
    (same : graph.name id = graph.name other) : id = other := by
  have located := sound.find?_name bound
  rw [same, sound.find?_name otherBound, Option.some.injEq] at located
  exact located.symm

theorem Sound.groupKeys_name_perm :
    (graph.groupKeys graph.name).Perm ((List.range graph.size).map graph.name) := by
  have once := graph.groupKeys_perm_dedup graph.name
  rwa [sound.nodup_names_of_nodes.dedup] at once

theorem Sound.dependsOn_classes_iff {source target : String} :
    graph.classes.DependsOn source target ↔ graph.Refers source target := by
  rw [classes, sound.dependsOn_groupBy_iff]
  constructor
  · rintro ⟨-, id, other, edge, rfl, rfl⟩
    exact ⟨id, other, sound.find?_name (lt_size_of_mem_efferents edge),
      sound.find?_name (sound.efferents_lt edge), mem_efferents_iff_dependsOn.mp edge⟩
  · rintro ⟨id, other, atSource, atTarget, edge⟩
    rw [← mem_efferents_iff_dependsOn] at edge
    refine ⟨?_, id, other, edge, sound.name_of_find? atSource, sound.name_of_find? atTarget⟩
    rintro rfl
    obtain rfl : id = other := Option.some.inj (atSource.symm.trans atTarget)
    exact sound.irreflexive id edge

theorem Sound.standsFor {place id : Nat} (bound : id < graph.size)
    (atPlace : (graph.groupKeys graph.name)[place]? = some (graph.name id)) :
    graph.StandsFor graph.classes place id := by
  have located := sound.find?_name bound
  have sides : TwoSided graph.classes.size graph.classes.efferents graph.classes.afferents :=
    sound.twoSided_groupBy
  have efferents : (graph.classes.keysOf (graph.classes.efferents place)).Perm
      ((graph.efferents id).map graph.name) := by
    refine (List.perm_ext_iff_of_nodup (nodup_of_ascending (keysOf_side_ascend sides))
      sound.nodup_efferent_names).mpr fun name => ?_
    rw [sound.mem_map_name_efferents_iff located, ← sound.dependsOn_classes_iff]
    exact mem_keysOf_efferents_iff atPlace
  have afferents : (graph.classes.keysOf (graph.classes.afferents place)).Perm
      ((graph.afferents id).map graph.name) := by
    refine (List.perm_ext_iff_of_nodup (nodup_of_ascending (keysOf_side_ascend sides.symm))
      sound.nodup_afferent_names).mpr fun name => ?_
    rw [sound.mem_map_name_afferents_iff located, ← sound.dependsOn_classes_iff]
    exact mem_keysOf_afferents_iff sound atPlace
  constructor
  case key_eq => exact (keyAt?_groupBy place).trans atPlace
  case memberCount_eq =>
    have alone : ((List.range graph.size).map graph.name).count (graph.name id) = 1 :=
      List.count_eq_one_of_mem sound.nodup_names_of_nodes
        (List.mem_map_of_mem (List.mem_range.mpr bound))
    rw [classes, getElem?_groups, atPlace, Option.map_some, Option.map_some, memberCount_groupAt,
      alone]
  case efferents_perm => exact efferents
  case afferents_perm => exact afferents
  case efferentCoupling_eq =>
    have lengths := efferents.length_eq
    rw [List.length_map] at lengths
    exact (length_keysOf_side sides).symm.trans lengths
  case afferentCoupling_eq =>
    have lengths := afferents.length_eq
    rw [List.length_map] at lengths
    exact (length_keysOf_side sides.symm).symm.trans lengths

theorem Sound.mirroredBy_classes : graph.MirroredBy graph.classes where
  size_eq := by
    rw [classes, size_groupBy, sound.groupKeys_name_perm.length_eq, List.length_map,
      List.length_range]
  group_of_node := by
    intro id bound
    have known := (graph.mem_groupKeys_iff graph.name).mpr ⟨id, bound, rfl⟩
    obtain ⟨place, atPlace⟩ := List.mem_iff_getElem?.mp known
    refine ⟨place, sound.standsFor bound atPlace, ?_⟩
    intro other stands
    exact place_unique ((keyAt?_groupBy other).symm.trans stands.key_eq) atPlace
  node_of_group := by
    intro place bound
    obtain ⟨name, atPlace⟩ := Grouping.exists_keyAt? bound
    rw [classes, keyAt?_groupBy] at atPlace
    obtain ⟨id, within, rfl⟩ := (graph.mem_groupKeys_iff graph.name).mp (List.mem_of_getElem? atPlace)
    refine ⟨id, ⟨within, sound.standsFor within atPlace⟩, ?_⟩
    rintro other ⟨otherWithin, stands⟩
    have again := (keyAt?_groupBy place).symm.trans stands.key_eq
    exact sound.name_inj otherWithin within (Option.some.inj (again.symm.trans atPlace))

end Classes

end Graph

def GroupRow.couplings (row : GroupRow) : String × Nat × Nat :=
  (row.name, row.afferentCoupling, row.efferentCoupling)

def ClassRow.couplings (row : ClassRow) : String × Nat × Nat :=
  (row.name, row.afferentCoupling, row.efferentCoupling)

namespace Analysis

theorem couplings_perm {graph : Graph} (sound : graph.Sound) :
    ((groupRows graph graph.name).map GroupRow.couplings).Perm
      (((List.range graph.size).map (classRow graph)).map ClassRow.couplings) := by
  let couplingsOf (name : String) : String × Nat × Nat :=
    (name, (graph.find? name).elim 0 graph.afferentCoupling,
      (graph.find? name).elim 0 graph.efferentCoupling)
  have groups : (groupRows graph graph.name).map GroupRow.couplings =
      (graph.groupKeys graph.name).map couplingsOf := by
    apply List.ext_getElem?
    intro place
    rw [List.getElem?_map, getElem?_groupRows, List.getElem?_map, Option.map_map]
    cases atPlace : (graph.groupKeys graph.name)[place]? with
    | none => rfl
    | some name =>
        obtain ⟨id, bound, rfl⟩ :=
          (graph.mem_groupKeys_iff graph.name).mp (List.mem_of_getElem? atPlace)
        have located := sound.find?_name bound
        have stands := sound.standsFor bound atPlace
        simp only [Option.map_some, Function.comp_apply, couplingsOf, located, Option.elim_some,
          ← stands.efferentCoupling_eq, ← stands.afferentCoupling_eq]
        rfl
  have classes : ((List.range graph.size).map (classRow graph)).map ClassRow.couplings =
      ((List.range graph.size).map graph.name).map couplingsOf := by
    rw [List.map_map, List.map_map]
    refine List.map_congr_left fun id listed => ?_
    have located := sound.find?_name (List.mem_range.mp listed)
    simp only [Function.comp_apply, couplingsOf, located, Option.elim_some]
    rfl
  rw [groups, classes]
  exact sound.groupKeys_name_perm.map couplingsOf

theorem memberCount_of_mem_groupRows {graph : Graph} (sound : graph.Sound) {row : GroupRow}
    (listed : row ∈ groupRows graph graph.name) : row.memberCount = 1 := by
  obtain ⟨place, name, atPlace, rfl⟩ := mem_groupRows_iff.mp listed
  obtain ⟨id, bound, rfl⟩ := (graph.mem_groupKeys_iff graph.name).mp (List.mem_of_getElem? atPlace)
  have single := (sound.standsFor bound atPlace).memberCount_eq
  rw [Graph.classes, Graph.getElem?_groups, atPlace] at single
  exact Option.some.inj single

structure RestatesClasses (report : Report) : Prop where
  groups_ascend : (report.groups.map GroupRow.name).Pairwise
    fun first second => compare first second = .lt
  groups_single : ∀ row ∈ report.groups, row.memberCount = 1
  couplings_perm : (report.groups.map GroupRow.couplings).Perm
    (report.classes.map ClassRow.couplings)

/-- Grouping by class gives the graph of the classes again, and the report by class the rows
of the classes. -/
theorem class_groups_mirror_graph (records : List ClassRecord) (analysis : Analysis) :
    (Graph.assemble records).MirroredBy (Graph.assemble records).classes ∧
      RestatesClasses
        (({ analysis with graph := .assemble records } : Analysis).report .byClass) := by
  have sound := Graph.assemble_sound records
  refine ⟨sound.mirroredBy_classes, ?_, fun row => memberCount_of_mem_groupRows sound,
    couplings_perm sound⟩
  have names : ((groupRows (Graph.assemble records) (Graph.assemble records).name).map
      GroupRow.name) = _ := map_name_groupRows
  exact names ▸ Graph.groupKeys_ascend _ _

end Analysis

end ClassCoupling
