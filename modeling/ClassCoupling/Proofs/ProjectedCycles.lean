import ClassCoupling.Proofs.Coarsening
import Mathlib.Data.Set.Basic

/-!
Cycles of classes seen through a key. An edge of the graph stays inside a group or is an edge
between groups, so a path of classes gives a path of groups in which the steps inside a
group vanish. Classes that reach each other have keys that do, and as soon as two of these
keys differ the component that holds them is large enough to be listed.
-/
namespace ClassCoupling.Graph

open Reachability

def StronglyConnected (graph : Graph) (members : Set Nat) : Prop :=
  ∀ id ∈ members, ∀ other ∈ members, Mutual graph.efferents id other

variable {κ : Type} [Ord κ] [Std.TransOrd κ] [Std.LawfulEqOrd κ] {graph : Graph} {key : Nat → κ}
  {id other : Nat}

section Sound

variable (sound : graph.Sound)

include sound

theorem Sound.edge_groupBy (edge : Edge graph.efferents id other) :
    Relation.ReflTransGen (graph.groupBy key).DependsOn (key id) (key other) := by
  -- One edge of the graph is one edge between groups or none.
  by_cases same : key id = key other
  · rw [same]
  · exact .single (sound.dependsOn_groupBy_iff.mpr ⟨same, id, other, edge, rfl, rfl⟩)

theorem Sound.path_of_groupBy (path : Relation.ReflTransGen (Edge graph.efferents) id other) :
    Relation.ReflTransGen (graph.groupBy key).DependsOn (key id) (key other) := by
  induction path with
  | refl => exact .refl
  | tail path edge ih => exact ih.trans (sound.edge_groupBy edge)

theorem Sound.entangled_of_mutual (both : Mutual graph.efferents id other) :
    (graph.groupBy key).Entangled (key id) (key other) :=
  ⟨sound.path_of_groupBy both.1, sound.path_of_groupBy both.2⟩

theorem Sound.exists_cycle_of_mutual (both : Mutual graph.efferents id other)
    (distinct : key id ≠ key other) :
    ∃ keys ∈ (graph.groupBy key).cycles, key id ∈ keys ∧ key other ∈ keys :=
  (exists_mem_cycles_groupBy_iff sound distinct).mpr (sound.entangled_of_mutual both)

theorem Sound.mem_cycle_of_mutual {keys : List κ} (listed : keys ∈ (graph.groupBy key).cycles)
    (inside : key id ∈ keys) (both : Mutual graph.efferents id other) : key other ∈ keys := by
  obtain ⟨-, -, first, members⟩ := (mem_cycles_groupBy_iff_entangled sound).mp listed
  rw [members] at inside ⊢
  exact inside.trans (sound.entangled_of_mutual both)

theorem Sound.exists_unique_cycle {members : Set Nat} (connected : graph.StronglyConnected members)
    (idMember : id ∈ members) (otherMember : other ∈ members) (distinct : key id ≠ key other) :
    ∃! keys, keys ∈ (graph.groupBy key).cycles ∧ ∀ member ∈ members, key member ∈ keys := by
  have both := connected id idMember other otherMember
  obtain ⟨keys, listed, inside, -⟩ := sound.exists_cycle_of_mutual both distinct
  refine ⟨keys, ⟨listed, ?_⟩, ?_⟩
  · intro member present
    exact sound.mem_cycle_of_mutual listed inside (connected id idMember member present)
  · intro others again
    exact eq_of_mem_cycles_groupBy sound again.1 listed (again.2 id idMember) inside

end Sound

/-- Classes that reach each other and have different keys have them in one list of cycles. So
have all classes of a strongly connected set with two keys or more, in one list and no other. -/
theorem class_cycles_show_in_groups (records : List ClassRecord) (key : Nat → κ) :
    (∀ id other, Mutual (assemble records).efferents id other → key id ≠ key other →
      ∃ keys ∈ ((assemble records).groupBy key).cycles, key id ∈ keys ∧ key other ∈ keys) ∧
      ∀ members : Set Nat, (assemble records).StronglyConnected members →
        (∃ id ∈ members, ∃ other ∈ members, key id ≠ key other) →
          ∃! keys, keys ∈ ((assemble records).groupBy key).cycles ∧
            ∀ member ∈ members, key member ∈ keys := by
  have sound := assemble_sound records
  refine ⟨fun _ _ both distinct => sound.exists_cycle_of_mutual both distinct, ?_⟩
  intro members connected several
  obtain ⟨id, idMember, other, otherMember, distinct⟩ := several
  exact sound.exists_unique_cycle connected idMember otherMember distinct

theorem entangled_stronglyConnected : (assemble entangled).StronglyConnected {id | id < 3} := by
  have mainUtil : 1 ∈ (assemble entangled).efferents 0 := by decide +kernel
  have mainLog : 2 ∈ (assemble entangled).efferents 0 := by decide +kernel
  have utilMain : 0 ∈ (assemble entangled).efferents 1 := by decide +kernel
  have logUtil : 1 ∈ (assemble entangled).efferents 2 := by decide +kernel
  have toMain : ∀ id < 3, Mutual (assemble entangled).efferents id 0 := by
    intro id bound
    match id with
    | 0 => exact .refl 0
    | 1 => exact ⟨.single utilMain, .single mainUtil⟩
    | 2 => exact ⟨.head logUtil (.single utilMain), .single mainLog⟩
  intro id idBound other otherBound
  exact (toMain id idBound).trans (toMain other otherBound).symm

theorem class_cycles_show_in_groups_entangled :
    (∃ keys ∈ (assemble entangled).packages.cycles, "app" ∈ keys ∧ "lib" ∈ keys) ∧
      ∃! keys, keys ∈ (assemble entangled).packages.cycles ∧
        ∀ member < 3, ((assemble entangled).record member).package ∈ keys := by
  have shows := class_cycles_show_in_groups entangled
    fun id => ((assemble entangled).record id).package
  have app : ((assemble entangled).record 0).package = "app" := by decide +kernel
  have lib : ((assemble entangled).record 2).package = "lib" := by decide +kernel
  have distinct : ((assemble entangled).record 0).package ≠
      ((assemble entangled).record 2).package := by
    rw [app, lib]
    decide
  refine ⟨?_, ?_⟩
  · have both := entangled_stronglyConnected 0 (by decide) 2 (by decide)
    have together := shows.1 0 2 both distinct
    rwa [app, lib] at together
  · exact shows.2 {id | id < 3} entangled_stronglyConnected
      ⟨0, by decide, 2, by decide, distinct⟩

end ClassCoupling.Graph
