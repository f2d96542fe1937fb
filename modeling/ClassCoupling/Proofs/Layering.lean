import ClassCoupling.Proofs.Coarsening
import Mathlib.Data.List.Perm.Basic

/-!
Groups in layers. In a graph without cycles the vertices beyond a vertex, those that a path of
one step or more leads to, are more than those beyond any of its neighbours: they are the
neighbour itself and all that is beyond it. Counting them numbers the vertices so that every
edge leads down, and sorting by the count gives an order in which all that a vertex depends
on comes before it. A group has no edge to itself, so the cycles that are listed are all
the cycles there are.
-/
namespace ClassCoupling

namespace Reachability

def Acyclic (next : Nat → List Nat) : Prop :=
  ∀ vertex, ¬ Relation.TransGen (Edge next) vertex vertex

/-- Every edge leads to a smaller number. -/
def Descends (next : Nat → List Nat) (number : Nat → Nat) : Prop :=
  ∀ vertex, ∀ other ∈ next vertex, number other < number vertex

variable {next : Nat → List Nat} {number : Nat → Nat} {vertex other : Nat}

theorem Descends.lt_of_path (descends : Descends next number)
    (path : Relation.TransGen (Edge next) vertex other) : number other < number vertex := by
  induction path with
  | single edge => exact descends vertex _ edge
  | tail path edge ih => exact (descends _ _ edge).trans ih

theorem Descends.acyclic (descends : Descends next number) : Acyclic next := by
  intro vertex path
  exact Nat.lt_irrefl _ (descends.lt_of_path path)

theorem acyclic_iff_mutual (irreflexive : ∀ vertex, vertex ∉ next vertex) :
    Acyclic next ↔ ∀ vertex other, Mutual next vertex other → vertex = other := by
  constructor
  · intro acyclic vertex other both
    obtain same | ⟨middle, edge, path⟩ := both.1.cases_head
    · exact same
    · exact absurd (.head' edge (path.trans both.2)) (acyclic vertex)
  · intro alone vertex path
    obtain ⟨middle, edge, back⟩ := Relation.TransGen.head'_iff.mp path
    have same := alone vertex middle ⟨.single edge, back⟩
    exact irreflexive vertex (same ▸ edge)

section Beyond

variable (count : Nat) (next : Nat → List Nat)

def beyond (vertex : Nat) : List Nat :=
  let unmet := unreached next (Std.TreeSet.ofList (List.range count)) (next vertex)
  (List.range count).filter fun other => !unmet.contains other

def height (vertex : Nat) : Nat := (beyond count next vertex).length

def byHeight : List Nat :=
  (List.range count).mergeSort fun first second =>
    height count next first ≤ height count next second

variable {count next}

theorem met_iff_path {inside : Nat → Prop}
    (bounded : ∀ {vertex other}, other ∈ next vertex → inside other) :
    Met next inside (next vertex) other ↔ Relation.TransGen (Edge next) vertex other := by
  constructor
  · intro met
    induction met with
    | start listed within => exact .single listed
    | step met edge within ih => exact ih.tail edge
  · intro path
    induction path with
    | single edge => exact .start edge (bounded edge)
    | tail path edge ih => exact .step ih edge (bounded edge)

section Bounded

variable (bounded : ∀ {vertex other}, other ∈ next vertex → other < count)

include bounded

theorem mem_beyond_iff :
    other ∈ beyond count next vertex ↔ Relation.TransGen (Edge next) vertex other := by
  have vertices : ∀ member, member ∈ Std.TreeSet.ofList (List.range count) ↔ member < count := by
    simp [Std.TreeSet.mem_ofList]
  have met : Met next (fun member => member ∈ Std.TreeSet.ofList (List.range count)) (next vertex)
      other ↔ Relation.TransGen (Edge next) vertex other :=
    met_iff_path fun edge => (vertices _).mpr (bounded edge)
  rw [beyond, List.mem_filter, List.mem_range, Bool.not_eq_true', ← Bool.not_eq_true,
    Std.TreeSet.contains_iff_mem, mem_unreached_iff, vertices, met]
  constructor
  · intro reached
    by_contra path
    exact reached.2 ⟨reached.1, path⟩
  · intro path
    obtain ⟨last, -, edge⟩ := Relation.TransGen.tail'_iff.mp path
    exact ⟨bounded edge, fun unmet => unmet.2 path⟩

theorem Acyclic.height_lt (acyclic : Acyclic next) (edge : other ∈ next vertex) :
    height count next other < height count next vertex := by
  -- A neighbour and all that is beyond it are beyond a vertex, and the neighbour is not beyond
  -- itself.
  have nodup : (other :: beyond count next other).Nodup := by
    refine List.nodup_cons.mpr ⟨?_, List.nodup_range.filter _⟩
    rw [mem_beyond_iff bounded]
    exact acyclic other
  have subset : other :: beyond count next other ⊆ beyond count next vertex := by
    intro member listed
    rw [mem_beyond_iff bounded]
    obtain same | further := List.mem_cons.mp listed
    · rw [same]
      exact .single edge
    · exact .head edge ((mem_beyond_iff bounded).mp further)
  exact (List.subperm_of_subset nodup subset).length_le

end Bounded

theorem byHeight_perm (count : Nat) (next : Nat → List Nat) :
    (byHeight count next).Perm (List.range count) :=
  List.mergeSort_perm _ _

theorem byHeight_ascends (count : Nat) (next : Nat → List Nat) :
    (byHeight count next).Pairwise fun first second =>
      height count next first ≤ height count next second := by
  have transitive : ∀ first second third,
      decide (height count next first ≤ height count next second) = true →
        decide (height count next second ≤ height count next third) = true →
          decide (height count next first ≤ height count next third) = true := by
    simp only [decide_eq_true_eq]
    omega
  have total : ∀ first second, (decide (height count next first ≤ height count next second) ||
      decide (height count next second ≤ height count next first)) = true := by
    simp only [Bool.or_eq_true, decide_eq_true_eq]
    omega
  have sorted := List.pairwise_mergeSort transitive total (List.range count)
  exact sorted.imp of_decide_eq_true

theorem idxOf_lt_idxOf {order : List Nat} {height : Nat → Nat}
    (ascends : order.Pairwise fun first second => height first ≤ height second)
    (listed : other ∈ order) (lower : height other < height vertex) :
    order.idxOf other < order.idxOf vertex := by
  have otherBound := List.idxOf_lt_length_iff.mpr listed
  refine Nat.lt_of_not_le fun above => ?_
  -- The higher one would be on the list too, at the same place or an earlier one.
  have bound : order.idxOf vertex < order.length := by omega
  have atOther := List.getElem_idxOf otherBound
  have atVertex := List.getElem_idxOf bound
  obtain same | before := Nat.eq_or_lt_of_le above
  · simp only [same] at atVertex
    rw [← atVertex, atOther] at lower
    exact Nat.lt_irrefl _ lower
  · have ordered := List.pairwise_iff_getElem.mp ascends _ _ bound otherBound before
    rw [atVertex, atOther] at ordered
    omega

theorem Acyclic.descends_byHeight
    (bounded : ∀ {vertex other}, other ∈ next vertex → other < count) (acyclic : Acyclic next) :
    Descends next fun vertex => (byHeight count next).idxOf vertex := by
  intro vertex other edge
  have listed : other ∈ byHeight count next :=
    (byHeight_perm count next).mem_iff.mpr (List.mem_range.mpr (bounded edge))
  exact idxOf_lt_idxOf (byHeight_ascends count next) listed (acyclic.height_lt bounded edge)

end Beyond

end Reachability

open Reachability

namespace Grouping

variable {κ : Type} [Ord κ]

/-- Every efferent of a group has a smaller number than the group. -/
def Layers (grouping : Grouping κ) (number : Nat → Nat) : Prop :=
  ∀ place < grouping.size, ∀ other ∈ grouping.efferents place, number other < number place

instance (grouping : Grouping κ) (number : Nat → Nat) : Decidable (grouping.Layers number) :=
  inferInstanceAs (Decidable (∀ place < grouping.size, ∀ other ∈ grouping.efferents place,
    number other < number place))

theorem layers_iff_descends {grouping : Grouping κ} {number : Nat → Nat} :
    grouping.Layers number ↔ Descends grouping.efferents number :=
  ⟨fun layers place other edge => layers place (lt_size_of_mem_efferents edge) other edge,
    fun descends place _ => descends place⟩

end Grouping

namespace Graph

variable {κ : Type} [Ord κ] [Std.TransOrd κ] [Std.LawfulEqOrd κ] {graph : Graph} {key : Nat → κ}

section Sound

variable (sound : graph.Sound)

include sound

theorem Sound.cycles_eq_nil_iff_entangled :
    (graph.groupBy key).cycles = [] ↔
      ∀ first second, (graph.groupBy key).Entangled first second → first = second := by
  rw [List.eq_nil_iff_forall_not_mem]
  constructor
  · intro none first second both
    by_contra distinct
    obtain ⟨keys, listed, -⟩ := (exists_mem_cycles_groupBy_iff sound distinct).mpr both
    exact none keys listed
  · intro alone keys listed
    obtain ⟨length, ascends, first, members⟩ := (mem_cycles_groupBy_iff_entangled sound).mp listed
    obtain ⟨second, inside, distinct⟩ := exists_ne_of_ascending length ascends first
    exact distinct (alone first second ((members second).mp inside))

theorem Sound.exists_key_of_mutual {place other : Nat}
    (both : Mutual (graph.groupBy key).efferents place other) (distinct : place ≠ other) :
    ∃ wanted, (graph.groupKeys key)[place]? = some wanted := by
  obtain same | ⟨middle, edge, -⟩ := both.1.cases_head
  · exact absurd same distinct
  · exact (exists_keys_of_mem_efferents sound edge).1

theorem Sound.cycles_eq_nil_iff_acyclic :
    (graph.groupBy key).cycles = [] ↔ Acyclic (graph.groupBy key).efferents := by
  have irreflexive : ∀ place, place ∉ (graph.groupBy key).efferents place := by
    intro place edge
    exact ((mem_efferents_groupBy_iff key sound).mp edge).1 rfl
  rw [sound.cycles_eq_nil_iff_entangled, acyclic_iff_mutual irreflexive]
  constructor
  · intro alone place other both
    by_contra distinct
    obtain ⟨first, atPlace⟩ := sound.exists_key_of_mutual both distinct
    obtain ⟨second, atOther⟩ := sound.exists_key_of_mutual both.symm (Ne.symm distinct)
    have same := alone first second ((entangled_groupBy_iff sound atPlace atOther).mpr both)
    exact distinct (place_unique atPlace (same ▸ atOther))
  · intro alone first second both
    by_contra distinct
    obtain ⟨place, atPlace⟩ := both.exists_place distinct
    obtain ⟨other, atOther⟩ := both.symm.exists_place (Ne.symm distinct)
    rw [find?_groupBy_iff] at atPlace atOther
    have same := alone place other ((entangled_groupBy_iff sound atPlace atOther).mp both)
    exact distinct (Option.some.inj (atPlace.symm.trans (same ▸ atOther)))

end Sound

/-- No cycle is listed exactly when the groups can be numbered so that every efferent of a group
has a smaller number; the numbers can then be the places in one order of all groups. -/
theorem no_cycles_iff_layered (records : List ClassRecord) (key : Nat → κ) :
    (((assemble records).groupBy key).cycles = [] ↔
      ∃ number, ((assemble records).groupBy key).Layers number) ∧
      (((assemble records).groupBy key).cycles = [] ↔
        ∃ order : List Nat, order.Perm (List.range ((assemble records).groupBy key).size) ∧
          ((assemble records).groupBy key).Layers fun place => order.idxOf place) := by
  have sound := assemble_sound records
  have ordered : ((assemble records).groupBy key).cycles = [] →
      ∃ order : List Nat, order.Perm (List.range ((assemble records).groupBy key).size) ∧
        ((assemble records).groupBy key).Layers fun place => order.idxOf place := by
    intro none
    have acyclic := sound.cycles_eq_nil_iff_acyclic.mp none
    refine ⟨_, byHeight_perm _ ((assemble records).groupBy key).efferents, ?_⟩
    exact Grouping.layers_iff_descends.mpr (acyclic.descends_byHeight sound.groupBy.efferents_lt)
  have numbered : (∃ number, ((assemble records).groupBy key).Layers number) →
      ((assemble records).groupBy key).cycles = [] := by
    intro layered
    obtain ⟨number, layers⟩ := layered
    exact sound.cycles_eq_nil_iff_acyclic.mpr (Grouping.layers_iff_descends.mp layers).acyclic
  constructor
  · refine ⟨fun none => ?_, numbered⟩
    obtain ⟨order, -, layers⟩ := ordered none
    exact ⟨_, layers⟩
  · refine ⟨ordered, fun layered => ?_⟩
    obtain ⟨order, -, layers⟩ := layered
    exact numbered ⟨_, layers⟩

def stacked : List ClassRecord :=
  [{ name := "app.Main", references := .ofList ["app.Help", "lib.Log", "util.Text"] },
    { name := "app.Help", references := .ofList ["app.Main"] },
    { name := "lib.Log", references := .ofList ["util.Text"] }]

theorem no_cycles_iff_layered_stacked :
    (assemble stacked).packages.Layers (fun place => 2 - place) ∧
      (assemble stacked).packages.cycles = [] ∧
      ∃ order : List Nat, order.Perm (List.range (assemble stacked).packages.size) ∧
        (assemble stacked).packages.Layers fun place => order.idxOf place := by
  have layered := no_cycles_iff_layered stacked fun id => ((assemble stacked).record id).package
  have layers : (assemble stacked).packages.Layers fun place => 2 - place := by decide +kernel
  have none : (assemble stacked).packages.cycles = [] := layered.1.mpr ⟨_, layers⟩
  exact ⟨layers, none, layered.2.mp none⟩

end Graph

end ClassCoupling
