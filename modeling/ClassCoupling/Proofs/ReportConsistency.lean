import ClassCoupling.Analyzer
import ClassCoupling.Report
import ClassCoupling.Proofs.CycleDetection
import ClassCoupling.Proofs.NamedGraph
import Mathlib.Combinatorics.Enumerative.DoubleCounting

/-!
The numbers of a report agree. They come from tables that are never compared: the
number of classes that were found, the nodes, the two sides of the edges of classes and
of groups, and the cycles. At either level every edge is listed at both of its
ends, so both sides add up to the number of edges, and no row lists itself or
anything twice, so its couplings stay below the number of rows.
-/
namespace ClassCoupling

/-- Edges among the first numbers, listed in ascending order at both ends, none of them a loop. -/
structure TwoSided (count : Nat) (next previous : Nat → List Nat) : Prop where
  mirrored : Reachability.Mirrored next previous
  bounded : ∀ {vertex other}, other ∈ next vertex → vertex < count ∧ other < count
  irreflexive : ∀ vertex, vertex ∉ next vertex
  next_ascends : ∀ vertex, (next vertex).Pairwise (· < ·)
  previous_ascends : ∀ vertex, (previous vertex).Pairwise (· < ·)

namespace TwoSided

variable {count : Nat} {next previous : Nat → List Nat}

theorem symm (sides : TwoSided count next previous) : TwoSided count previous next where
  mirrored := fun vertex other => (sides.mirrored other vertex).symm
  bounded := fun edge => (sides.bounded ((sides.mirrored _ _).mp edge)).symm
  irreflexive := fun vertex edge =>
    sides.irreflexive vertex ((sides.mirrored vertex vertex).mp edge)
  next_ascends := sides.previous_ascends
  previous_ascends := sides.next_ascends

theorem length_lt (sides : TwoSided count next previous) {vertex : Nat} (bound : vertex < count) :
    (next vertex).length < count := by
  have distinct : (vertex :: next vertex).Nodup := by
    rw [List.nodup_cons]
    exact ⟨sides.irreflexive vertex, (sides.next_ascends vertex).imp Nat.ne_of_lt⟩
  have within : vertex :: next vertex ⊆ List.range count := by
    intro other listed
    rw [List.mem_range]
    obtain rfl | edge := List.mem_cons.mp listed
    · exact bound
    · exact (sides.bounded edge).2
  have length := (List.subperm_of_subset distinct within).length_le
  rwa [List.length_cons, List.length_range] at length

theorem length_eq_card (sides : TwoSided count next previous) (vertex : Nat) :
    (next vertex).length =
      ((Finset.range count).filter fun other => other ∈ next vertex).card := by
  rw [← List.toFinset_card_of_nodup ((sides.next_ascends vertex).imp Nat.ne_of_lt)]
  congr 1
  ext other
  simp only [List.mem_toFinset, Finset.mem_filter, Finset.mem_range]
  exact ⟨fun edge => ⟨(sides.bounded edge).2, edge⟩, And.right⟩

theorem sum_length_eq (sides : TwoSided count next previous) :
    ((List.range count).map fun vertex => (next vertex).length).sum =
      ((List.range count).map fun vertex => (previous vertex).length).sum := by
  -- Both sides count every edge once.
  calc ((List.range count).map fun vertex => (next vertex).length).sum
      = ∑ vertex ∈ Finset.range count,
          ((Finset.range count).filter fun other => other ∈ next vertex).card := by
        simp only [sides.length_eq_card]
        rfl
    _ = ∑ other ∈ Finset.range count,
          ((Finset.range count).filter fun vertex => other ∈ next vertex).card :=
        Finset.sum_card_bipartiteAbove_eq_sum_card_bipartiteBelow fun vertex other =>
          other ∈ next vertex
    _ = ((List.range count).map fun vertex => (previous vertex).length).sum := by
        simp only [sides.symm.length_eq_card, sides.mirrored _ _]
        rfl

end TwoSided

theorem Graph.Sound.twoSided {graph : Graph} (sound : graph.Sound) :
    TwoSided graph.size graph.efferents graph.afferents where
  mirrored := fun target source => sound.mirrored source target
  bounded := fun edge => ⟨Graph.lt_size_of_mem_efferents edge, sound.efferents_lt edge⟩
  irreflexive := sound.irreflexive
  next_ascends := graph.efferents_ascend
  previous_ascends := graph.afferents_ascend

namespace Grouping

variable {κ : Type} [Ord κ] (grouping : Grouping κ)

theorem efferents_ascend (place : Nat) : (grouping.efferents place).Pairwise (· < ·) := by
  unfold efferents
  cases grouping.groups[place]? with
  | none => exact .nil
  | some group => exact group.efferents.sorted.imp Nat.compare_eq_lt.mp

theorem afferents_ascend (place : Nat) : (grouping.afferents place).Pairwise (· < ·) := by
  unfold afferents
  cases grouping.groups[place]? with
  | none => exact .nil
  | some group => exact group.afferents.sorted.imp Nat.compare_eq_lt.mp

end Grouping

namespace Graph

variable {graph : Graph} {κ : Type} [Ord κ] [Std.TransOrd κ] [Std.LawfulEqOrd κ] {key : Nat → κ}

theorem Sound.twoSided_groupBy (sound : graph.Sound) :
    TwoSided (graph.groupBy key).size (graph.groupBy key).efferents (graph.groupBy key).afferents where
  mirrored := efferents_groupBy_mirrored sound
  bounded := by
    intro place other edge
    have here := lt_size_of_mem_efferents_groupBy sound edge
    obtain ⟨⟨source, present⟩, -⟩ := exists_keys_of_mem_efferents sound edge
    rw [size_groupBy]
    exact ⟨(List.getElem?_eq_some_iff.mp present).1, here⟩
  irreflexive := fun place edge => ((mem_efferents_groupBy_iff key sound).mp edge).1 rfl
  next_ascends := Grouping.efferents_ascend _
  previous_ascends := Grouping.afferents_ascend _

theorem mem_keysOf_iff_mem {places : List Nat} {other : Nat} {name : κ}
    (atOther : (graph.groupKeys key)[other]? = some name) :
    name ∈ (graph.groupBy key).keysOf places ↔ other ∈ places := by
  rw [mem_keysOf_groupBy_iff]
  constructor
  · rintro ⟨found, edge, present⟩
    rwa [place_unique atOther present]
  · intro edge
    exact ⟨other, edge, atOther⟩

section Sides

variable {next previous : Nat → List Nat} {place : Nat} {wanted name : κ}
  (sides : TwoSided (graph.groupBy key).size next previous)

include sides

theorem length_keysOf_side :
    ((graph.groupBy key).keysOf (next place)).length = (next place).length :=
  length_keysOf_groupBy fun _ edge => (sides.bounded edge).2

theorem keysOf_side_ascend : ((graph.groupBy key).keysOf (next place)).Pairwise
    fun first second => compare first second = .lt :=
  keysOf_groupBy_ascend (sides.next_ascends place)

theorem mem_groupKeys_of_side (atPlace : (graph.groupKeys key)[place]? = some wanted)
    (listed : name ∈ (graph.groupBy key).keysOf (next place)) :
    name ≠ wanted ∧ name ∈ graph.groupKeys key := by
  obtain ⟨found, edge, present⟩ := mem_keysOf_groupBy_iff.mp listed
  refine ⟨?_, List.mem_of_getElem? present⟩
  rintro rfl
  obtain rfl := place_unique atPlace present
  exact sides.irreflexive place edge

end Sides

theorem exists_edges_of_mem_cycles (sound : graph.Sound) {keys : List κ} {name : κ}
    (cycle : keys ∈ (graph.groupBy key).cycles) (listed : name ∈ keys) :
    ∃ place, (graph.groupKeys key)[place]? = some name ∧
      0 < ((graph.groupBy key).efferents place).length ∧
      0 < ((graph.groupBy key).afferents place).length := by
  obtain ⟨length, ascends, first, members⟩ := (mem_cycles_groupBy_iff_entangled sound).mp cycle
  obtain ⟨other, otherListed, distinct⟩ := exists_ne_of_ascending length ascends name
  have both := ((members name).mp listed).symm.trans ((members other).mp otherListed)
  obtain same | ⟨target, ahead, -⟩ := both.1.cases_head
  · exact absurd same distinct
  obtain same | ⟨source, -, behind⟩ := both.2.cases_tail
  · exact absurd same distinct
  obtain ⟨place, after, atPlace, -, leaving⟩ := dependsOn_groupBy_iff.mp ahead
  obtain ⟨before, again, -, atAgain, arriving⟩ := dependsOn_groupBy_iff.mp behind
  obtain rfl := place_unique atPlace atAgain
  rw [← mem_afferents_groupBy_iff key sound] at arriving
  exact ⟨place, atPlace, List.length_pos_of_mem leaving, List.length_pos_of_mem arriving⟩

end Graph

namespace Analysis

section Rows

variable {graph : Graph} {key : Nat → String}

def rowAt (graph : Graph) (key : Nat → String) (place : Nat) (wanted : String) : GroupRow where
  name := wanted
  memberCount := (graph.groupAt key place wanted).memberCount
  afferentCoupling := ((graph.groupBy key).afferents place).length
  efferentCoupling := ((graph.groupBy key).efferents place).length
  efferents := (graph.groupBy key).keysOf ((graph.groupBy key).efferents place)
  afferents := (graph.groupBy key).keysOf ((graph.groupBy key).afferents place)

theorem groupRow_groupAt {place : Nat} {wanted : String}
    (present : (graph.groupKeys key)[place]? = some wanted) :
    groupRow (graph.groupBy key) (graph.groupAt key place wanted) = rowAt graph key place wanted := by
  rw [groupRow, Ascending.size, Ascending.size, Graph.efferents_groupAt _ _ present,
    Graph.afferents_groupAt _ _ present]
  rfl

def groupRows (graph : Graph) (key : Nat → String) : List GroupRow :=
  (graph.groupBy key).groups.toList.map (groupRow (graph.groupBy key))

theorem getElem?_groupRows (place : Nat) :
    (groupRows graph key)[place]? =
      (graph.groupKeys key)[place]?.map (rowAt graph key place) := by
  rw [groupRows, List.getElem?_map, Array.getElem?_toList, Graph.getElem?_groups, Option.map_map]
  cases present : (graph.groupKeys key)[place]? with
  | none => rfl
  | some wanted => exact congrArg some (groupRow_groupAt present)

theorem mem_groupRows_iff {row : GroupRow} :
    row ∈ groupRows graph key ↔ ∃ place wanted, (graph.groupKeys key)[place]? = some wanted ∧
      rowAt graph key place wanted = row := by
  simp only [List.mem_iff_getElem?, getElem?_groupRows, Option.map_eq_some_iff]

theorem map_name_groupRows : (groupRows graph key).map GroupRow.name = graph.groupKeys key := by
  rw [groupRows, List.map_map]
  exact graph.map_key_groups key

theorem length_groupRows : (groupRows graph key).length = (graph.groupBy key).size := by
  rw [Graph.size_groupBy, ← map_name_groupRows, List.length_map]

theorem map_groupRows {column : GroupRow → Nat} {value : Nat → Nat}
    (reads : ∀ place wanted, column (rowAt graph key place wanted) = value place) :
    (groupRows graph key).map column = (List.range (graph.groupBy key).size).map value := by
  apply eq_map_range (by rw [List.length_map, length_groupRows])
  intro place entry present
  rw [List.getElem?_map, getElem?_groupRows, Option.map_map, Option.map_eq_some_iff] at present
  obtain ⟨wanted, -, rfl⟩ := present
  exact reads place wanted

end Rows

inductive Obtained : Analysis → Prop
  | empty : Obtained {}
  | ofRecords (records : List ClassRecord) : Obtained (.ofRecords records)
  | analyzed {σ : Type} (analyzer : Analyzer σ) (opened : List Opened) :
      Obtained (analyzer.analyzeOpened opened)

theorem Obtained.assembled {analysis : Analysis} (obtained : analysis.Obtained) :
    ∃ records, analysis.graph = .assemble records := by
  cases obtained with
  | empty => exact ⟨[], rfl⟩
  | ofRecords records => exact ⟨records, rfl⟩
  | analyzed analyzer opened => exact ⟨_, rfl⟩

end Analysis

structure GroupRow.FitsIn (rows : List GroupRow) (row : GroupRow) : Prop where
  efferentCoupling_eq : row.efferentCoupling = row.efferents.length
  afferentCoupling_eq : row.afferentCoupling = row.afferents.length
  efferents_ascend : row.efferents.Pairwise fun first second => compare first second = .lt
  afferents_ascend : row.afferents.Pairwise fun first second => compare first second = .lt
  efferents_nodup : row.efferents.Nodup
  afferents_nodup : row.afferents.Nodup
  efferents_others : ∀ name ∈ row.efferents, name ≠ row.name ∧ name ∈ rows.map GroupRow.name
  afferents_others : ∀ name ∈ row.afferents, name ≠ row.name ∧ name ∈ rows.map GroupRow.name
  listed_iff : ∀ other ∈ rows, other.name ∈ row.efferents ↔ row.name ∈ other.afferents
  efferentCoupling_lt : row.efferentCoupling < rows.length
  afferentCoupling_lt : row.afferentCoupling < rows.length

structure Report.Consistent (report : Report) : Prop where
  classes_parted : report.summary.classes = report.summary.decoded + report.summary.placeholders
  classes_listed : report.summary.classes = report.classes.length
  classes_grouped : report.summary.classes = (report.groups.map GroupRow.memberCount).sum
  placeholders_flagged : report.classes.countP ClassRow.placeholder = report.summary.placeholders
  groups_ascend : (report.groups.map GroupRow.name).Pairwise
    fun first second => compare first second = .lt
  groups_fit : ∀ row ∈ report.groups, row.FitsIn report.groups
  groups_balanced : (report.groups.map GroupRow.efferentCoupling).sum =
    (report.groups.map GroupRow.afferentCoupling).sum
  classes_balanced : (report.classes.map ClassRow.efferentCoupling).sum =
    (report.classes.map ClassRow.afferentCoupling).sum
  classes_bounded : ∀ row ∈ report.classes,
    row.efferentCoupling < report.classes.length ∧ row.afferentCoupling < report.classes.length
  /-- A name in a cycle is that of a row that depends on others and is depended on. -/
  cycles_listed : ∀ cycle ∈ report.cycles, ∀ name ∈ cycle, ∃ row ∈ report.groups,
    row.name = name ∧ 1 ≤ row.efferentCoupling ∧ 1 ≤ row.afferentCoupling
  cycles_disjoint : report.cycles.flatten.Nodup

namespace Analysis

section Consistency

variable {graph : Graph} (sound : graph.Sound)

theorem countP_isPlaceholder (graph : Graph) (count : Nat) :
    (List.range count).countP graph.isPlaceholder = count - graph.decoded := by
  induction count with
  | zero => simp
  | succ count ih =>
      rw [List.range_succ, List.countP_append, ih, List.countP_singleton, Graph.isPlaceholder]
      simp only [decide_eq_true_eq]
      split <;> omega

include sound

theorem rowAt_fits {key : Nat → String} {place : Nat} {wanted : String}
    (atPlace : (graph.groupKeys key)[place]? = some wanted) :
    (rowAt graph key place wanted).FitsIn (groupRows graph key) := by
  have sides : TwoSided (graph.groupBy key).size (graph.groupBy key).efferents
      (graph.groupBy key).afferents := sound.twoSided_groupBy
  have bound : place < (graph.groupBy key).size := by
    rw [Graph.size_groupBy]
    exact (List.getElem?_eq_some_iff.mp atPlace).1
  exact {
    efferentCoupling_eq := (Graph.length_keysOf_side sides).symm
    afferentCoupling_eq := (Graph.length_keysOf_side sides.symm).symm
    efferents_ascend := Graph.keysOf_side_ascend sides
    afferents_ascend := Graph.keysOf_side_ascend sides.symm
    efferents_nodup := nodup_of_ascending (Graph.keysOf_side_ascend sides)
    afferents_nodup := nodup_of_ascending (Graph.keysOf_side_ascend sides.symm)
    efferents_others := by
      intro name listed
      rw [map_name_groupRows]
      exact Graph.mem_groupKeys_of_side sides atPlace listed
    afferents_others := by
      intro name listed
      rw [map_name_groupRows]
      exact Graph.mem_groupKeys_of_side sides.symm atPlace listed
    listed_iff := by
      intro row listed
      obtain ⟨other, name, atOther, rfl⟩ := mem_groupRows_iff.mp listed
      exact (Graph.mem_keysOf_iff_mem atOther).trans
        ((sides.mirrored other place).symm.trans (Graph.mem_keysOf_iff_mem atPlace).symm)
    efferentCoupling_lt := by
      rw [length_groupRows]
      exact sides.length_lt bound
    afferentCoupling_lt := by
      rw [length_groupRows]
      exact sides.symm.length_lt bound }

theorem groupRows_balanced (key : Nat → String) :
    ((groupRows graph key).map GroupRow.efferentCoupling).sum =
      ((groupRows graph key).map GroupRow.afferentCoupling).sum := by
  rw [map_groupRows fun _ _ => rfl, map_groupRows fun _ _ => rfl]
  exact sound.twoSided_groupBy.sum_length_eq

theorem exists_row_of_mem_cycles {key : Nat → String} {cycle : List String} {name : String}
    (listed : cycle ∈ (graph.groupBy key).cycles) (within : name ∈ cycle) :
    ∃ row ∈ groupRows graph key, row.name = name ∧ 1 ≤ row.efferentCoupling ∧
      1 ≤ row.afferentCoupling := by
  obtain ⟨place, atPlace, ahead, behind⟩ := Graph.exists_edges_of_mem_cycles sound listed within
  exact ⟨rowAt graph key place name, mem_groupRows_iff.mpr ⟨place, name, atPlace, rfl⟩, rfl, ahead,
    behind⟩

theorem classRows_balanced :
    (((List.range graph.size).map (classRow graph)).map ClassRow.efferentCoupling).sum =
      (((List.range graph.size).map (classRow graph)).map ClassRow.afferentCoupling).sum := by
  rw [List.map_map, List.map_map]
  exact sound.twoSided.sum_length_eq

theorem classRow_bounded {id : Nat} (bound : id < graph.size) :
    (classRow graph id).efferentCoupling < graph.size ∧
      (classRow graph id).afferentCoupling < graph.size :=
  ⟨sound.twoSided.length_lt bound, sound.twoSided.symm.length_lt bound⟩

end Consistency

theorem exists_key (choice : GroupBy) (graph : Graph) :
    ∃ key, choice.grouping graph = graph.groupBy key := by
  cases choice with
  | byPackage => exact ⟨_, rfl⟩
  | byClass => exact ⟨_, rfl⟩

theorem report_is_consistent (analysis : Analysis) (obtained : analysis.Obtained)
    (choice : GroupBy) :
    (analysis.report choice).Consistent ∧
      (analysis.report .byPackage).cycles = analysis.cycleReport.cycles := by
  obtain ⟨records, assembled⟩ := obtained.assembled
  have sound : analysis.graph.Sound := assembled ▸ Graph.assemble_sound records
  have decoded : analysis.graph.decoded ≤ analysis.graph.size := by
    rw [assembled, Graph.decoded_assemble]
    exact (Graph.assemble_progress records).length_le
  obtain ⟨key, grouped⟩ := exists_key choice analysis.graph
  have groups : (analysis.report choice).groups = groupRows analysis.graph key := by
    rw [report, grouped]
    rfl
  have cycles : (analysis.report choice).cycles = (analysis.graph.groupBy key).cycles := by
    rw [report, grouped]
  refine ⟨?_, rfl⟩
  exact {
    classes_parted := (Nat.add_sub_of_le decoded).symm
    classes_listed := by
      simp [report, summary]
    classes_grouped := by
      rw [groups, groupRows, List.map_map]
      exact (analysis.graph.sum_memberCount key).symm
    placeholders_flagged := by
      rw [report, List.countP_map]
      exact countP_isPlaceholder analysis.graph analysis.graph.size
    groups_ascend := by
      rw [groups, map_name_groupRows]
      exact analysis.graph.groupKeys_ascend key
    groups_fit := by
      intro row listed
      rw [groups] at listed ⊢
      obtain ⟨place, wanted, atPlace, rfl⟩ := mem_groupRows_iff.mp listed
      exact rowAt_fits sound atPlace
    groups_balanced := by
      rw [groups]
      exact groupRows_balanced sound key
    classes_balanced := classRows_balanced sound
    classes_bounded := by
      intro row listed
      obtain ⟨id, within, rfl⟩ := List.mem_map.mp listed
      have bounded := classRow_bounded sound (List.mem_range.mp within)
      simpa [report] using bounded
    cycles_listed := by
      intro cycle listed name within
      rw [cycles] at listed
      rw [groups]
      exact exists_row_of_mem_cycles sound listed within
    cycles_disjoint := by
      rw [cycles]
      exact Graph.nodup_flatten_cycles_groupBy sound }

theorem report_is_consistent_entangled :
    (Analysis.ofRecords Graph.entangled).summary.placeholders = 1 ∧
      ((Analysis.ofRecords Graph.entangled).report .byPackage).groups.map GroupRow.efferents =
        [[], ["Default", "lib"], ["app"]] ∧
      ((Analysis.ofRecords Graph.entangled).report .byPackage).Consistent :=
  ⟨by decide +kernel, by decide +kernel,
    (report_is_consistent _ (.ofRecords Graph.entangled) .byPackage).1⟩

end Analysis

end ClassCoupling
