import ClassCoupling.Reachability
import Mathlib.Data.List.Sort
import Mathlib.Logic.Relation

/-!
The components of a graph on `0, …, count - 1` are the classes of the vertices that
reach each other. A search meets exactly the vertices that a path leads to without
leaving the unseen ones. While components are placed, what is left is a union of
classes, and a path inside a class never leaves it; so searching among what is left
finds the same class as searching the whole graph. Each class is placed when its least
vertex comes up.
-/
namespace ClassCoupling.Reachability

variable {next previous : Nat → List Nat}

/-- The vertices that a search from `todo` meets, all of them among those inside. -/
inductive Met (next : Nat → List Nat) (inside : Nat → Prop) (todo : List Nat) : Nat → Prop
  | start {vertex : Nat} (listed : vertex ∈ todo) (within : inside vertex) :
      Met next inside todo vertex
  | step {vertex other : Nat} (met : Met next inside todo vertex) (edge : other ∈ next vertex)
      (within : inside other) : Met next inside todo other

section Search

variable {inside : Nat → Prop} {todo : List Nat} {vertex other : Nat}

theorem not_met_nil : ¬ Met next inside [] vertex := by
  intro met
  induction met with
  | start listed within => simp at listed
  | step met edge within ih => exact ih

theorem met_cons_of_outside (outside : ¬ inside vertex) :
    Met next inside (vertex :: todo) other ↔ Met next inside todo other := by
  constructor
  · intro met
    induction met with
    | start listed within =>
        obtain rfl | listed := List.mem_cons.mp listed
        · exact absurd within outside
        · exact .start listed within
    | step met edge within ih => exact .step ih edge within
  · intro met
    induction met with
    | start listed within => exact .start (List.mem_cons_of_mem vertex listed) within
    | step met edge within ih => exact .step ih edge within

theorem met_cons_of_inside (within : inside vertex) :
    Met next inside (vertex :: todo) other ↔
      other = vertex ∨
        Met next (fun left => left ≠ vertex ∧ inside left) (next vertex ++ todo) other := by
  constructor
  · intro met
    induction met with
    | @start other listed free =>
        by_cases same : other = vertex
        · exact .inl same
        · have listed : other ∈ todo := List.mem_of_ne_of_mem same listed
          exact .inr (.start (List.mem_append_right _ listed) ⟨same, free⟩)
    | @step first other met edge free ih =>
        by_cases same : other = vertex
        · exact .inl same
        · obtain rfl | met := ih
          · exact .inr (.start (List.mem_append_left _ edge) ⟨same, free⟩)
          · exact .inr (.step met edge ⟨same, free⟩)
  · intro reached
    have here : Met next inside (vertex :: todo) vertex := .start List.mem_cons_self within
    obtain rfl | met := reached
    · exact here
    · induction met with
      | start listed free =>
          obtain edge | listed := List.mem_append.mp listed
          · exact .step here edge free.2
          · exact .start (List.mem_cons_of_mem vertex listed) free.2
      | step met edge free ih => exact .step ih edge free.2

theorem mem_unreached_iff (unseen : Std.TreeSet Nat) (todo : List Nat) :
    other ∈ unreached next unseen todo ↔
      other ∈ unseen ∧ ¬ Met next (fun vertex => vertex ∈ unseen) todo other := by
  fun_induction unreached next unseen todo with
  | case1 unseen => simp [not_met_nil]
  | case2 unseen vertex todo member ih =>
      have within : vertex ∈ unseen := Std.TreeSet.contains_iff_mem.mp member
      have erased : ∀ left, left ∈ unseen.erase vertex ↔ left ≠ vertex ∧ left ∈ unseen := by
        intro left
        rw [Std.TreeSet.mem_erase, ne_eq, Std.compare_eq_iff_eq, eq_comm]
      rw [ih, met_cons_of_inside within]
      simp only [erased, not_or, ne_eq, and_assoc, and_left_comm]
  | case3 unseen vertex todo absent ih =>
      have outside : vertex ∉ unseen := by
        rwa [← Std.TreeSet.contains_iff_mem]
      rw [ih, met_cons_of_outside outside]

end Search

def Edge (next : Nat → List Nat) (vertex other : Nat) : Prop := other ∈ next vertex

def Mutual (next : Nat → List Nat) (vertex other : Nat) : Prop :=
  Relation.ReflTransGen (Edge next) vertex other ∧ Relation.ReflTransGen (Edge next) other vertex

namespace Mutual

variable {first second third : Nat}

theorem refl (vertex : Nat) : Mutual next vertex vertex := ⟨.refl, .refl⟩

theorem symm (both : Mutual next first second) : Mutual next second first := ⟨both.2, both.1⟩

theorem trans (left : Mutual next first second) (right : Mutual next second third) :
    Mutual next first third :=
  ⟨left.1.trans right.1, right.2.trans left.2⟩

theorem lt {count : Nat} (bounded : ∀ {vertex other}, other ∈ next vertex → other < count)
    (both : Mutual next first second) (bound : first < count) : second < count := by
  induction both.1 with
  | refl => exact bound
  | tail path edge ih => exact bounded edge

end Mutual

def Mirrored (next previous : Nat → List Nat) : Prop :=
  ∀ vertex other, other ∈ previous vertex ↔ vertex ∈ next other

theorem Mirrored.reflTransGen_iff (mirrored : Mirrored next previous) {first second : Nat} :
    Relation.ReflTransGen (Edge previous) first second ↔
      Relation.ReflTransGen (Edge next) second first := by
  have swapped : Edge previous = Function.swap (Edge next) := by
    funext vertex other
    exact propext (mirrored vertex other)
  rw [swapped, Relation.reflTransGen_swap]

section Component

variable {inside : Nat → Prop} {vertex other : Nat}

theorem Met.path (met : Met next inside [vertex] other) :
    Relation.ReflTransGen (Edge next) vertex other := by
  induction met with
  | start listed within =>
      rw [List.mem_singleton.mp listed]
  | step met edge within ih => exact ih.tail edge

theorem met_of_mutual (closed : ∀ {first second}, Mutual next first second → inside first →
      inside second) (within : inside vertex) (both : Mutual next vertex other) :
    Met next inside [vertex] other := by
  -- A path to and fro never leaves a union of classes.
  have start : Met next inside [vertex] vertex := .start (List.mem_singleton.mpr rfl) within
  -- The way back to the start is needed at every vertex on the way.
  obtain ⟨path, back⟩ := both
  induction path with
  | refl => exact start
  | @tail middle other path edge ih =>
      have home : Relation.ReflTransGen (Edge next) middle vertex := .head edge back
      exact .step (ih home) edge (closed ⟨path.tail edge, back⟩ within)

theorem met_iff_mutual (mirrored : Mirrored next previous)
    (closed : ∀ {first second}, Mutual next first second → inside first → inside second)
    (within : inside vertex) :
    Met next inside [vertex] other ∧ Met previous inside [vertex] other ↔
      Mutual next vertex other := by
  have reversed : ∀ {first second}, Mutual previous first second ↔ Mutual next first second := by
    intro first second
    rw [Mutual, mirrored.reflTransGen_iff, mirrored.reflTransGen_iff, and_comm, Mutual]
  constructor
  · rintro ⟨ahead, behind⟩
    exact ⟨ahead.path, mirrored.reflTransGen_iff.mp behind.path⟩
  · intro both
    have closedBack : ∀ {first second}, Mutual previous first second → inside first →
        inside second := fun both => closed (reversed.mp both)
    exact ⟨met_of_mutual closed within both,
      met_of_mutual closedBack within (reversed.mpr both)⟩

theorem mem_component_iff {left : Std.TreeSet Nat} (mirrored : Mirrored next previous)
    (closed : ∀ {first second}, Mutual next first second → first ∈ left → second ∈ left)
    (within : vertex ∈ left) :
    other ∈ component next previous left vertex ↔ Mutual next vertex other := by
  have searched : ∀ following : Nat → List Nat, other ∈ left →
      ((!(unreached following left [vertex]).contains other) = true ↔
        Met following (fun vertex => vertex ∈ left) [vertex] other) := by
    intro following present
    rw [Bool.not_eq_true', ← Bool.not_eq_true, Std.TreeSet.contains_iff_mem, mem_unreached_iff]
    simp [present]
  rw [component, List.mem_filter, Std.TreeSet.mem_toList, Bool.and_eq_true]
  constructor
  · rintro ⟨present, ahead, behind⟩
    rw [searched next present] at ahead
    rw [searched previous present] at behind
    exact (met_iff_mutual mirrored closed within).mp ⟨ahead, behind⟩
  · intro both
    have present : other ∈ left := closed both within
    rw [searched next present, searched previous present]
    exact ⟨present, (met_iff_mutual mirrored closed within).mpr both⟩

theorem component_ascends (left : Std.TreeSet Nat) (vertex : Nat) :
    (component next previous left vertex).Pairwise (· < ·) := by
  have ordered : left.toList.Pairwise (· < ·) := by
    refine Std.TreeSet.ordered_toList.imp ?_
    intro first second before
    exact Nat.compare_eq_lt.mp before
  exact ordered.filter _

end Component

section Classes

open Classical

variable (count : Nat) (next : Nat → List Nat)

noncomputable def classOf (vertex : Nat) : List Nat :=
  (List.range count).filter fun other => Mutual next vertex other

def Leads (vertex : Nat) : Prop := ∀ earlier < vertex, ¬ Mutual next earlier vertex

noncomputable def leaders (done : Nat) : List Nat :=
  (List.range done).filter fun vertex => Leads next vertex

/-- The classes of the first vertices have been placed and nothing else. -/
structure Partition.Placed (done : Nat) (state : Partition) : Prop where
  mem_left_iff : ∀ vertex, vertex ∈ state.left ↔
    vertex < count ∧ ∀ earlier < done, ¬ Mutual next earlier vertex
  found_eq : state.found.reverse = (leaders next done).map (classOf count next)

variable {count next}

theorem mem_classOf_iff {vertex other : Nat} :
    other ∈ classOf count next vertex ↔ other < count ∧ Mutual next vertex other := by
  rw [classOf, List.mem_filter, List.mem_range, decide_eq_true_eq]

theorem mem_leaders_iff {done vertex : Nat} :
    vertex ∈ leaders next done ↔ vertex < done ∧ Leads next vertex := by
  rw [leaders, List.mem_filter, List.mem_range, decide_eq_true_eq]

theorem leaders_ascend (done : Nat) : (leaders next done).Pairwise (· < ·) :=
  List.pairwise_lt_range.filter _

theorem exists_leader (next : Nat → List Nat) (vertex : Nat) :
    ∃ leader ≤ vertex, Leads next leader ∧ Mutual next leader vertex := by
  induction vertex using Nat.strongRecOn with
  | ind vertex ih =>
      by_cases first : Leads next vertex
      · exact ⟨vertex, Nat.le_refl vertex, first, .refl vertex⟩
      · simp only [Leads, not_forall, not_not] at first
        obtain ⟨earlier, before, both⟩ := first
        obtain ⟨leader, below, leads, toEarlier⟩ := ih earlier before
        exact ⟨leader, by omega, leads, toEarlier.trans both⟩

theorem classOf_ascends (vertex : Nat) : (classOf count next vertex).Pairwise (· < ·) :=
  List.pairwise_lt_range.filter _

theorem leaders_succ (done : Nat) :
    leaders next (done + 1) =
      if Leads next done then leaders next done ++ [done] else leaders next done := by
  rw [leaders, List.range_succ, List.filter_append]
  by_cases first : Leads next done
  · simp [first, leaders]
  · simp [first, leaders]

theorem mem_foldl_erase_iff {part : List Nat} {left : Std.TreeSet Nat} {vertex : Nat} :
    vertex ∈ part.foldl (fun left other => left.erase other) left ↔
      vertex ∈ left ∧ vertex ∉ part := by
  induction part generalizing left with
  | nil => simp
  | cons other part ih =>
      rw [List.foldl_cons, ih, Std.TreeSet.mem_erase, ne_eq, Std.compare_eq_iff_eq,
        List.mem_cons, not_or, eq_comm (a := other), and_assoc, and_left_comm]

theorem Partition.Placed.closed {done : Nat} {state : Partition}
    (placed : state.Placed count next done)
    (bounded : ∀ {vertex other}, other ∈ next vertex → other < count) {first second : Nat}
    (both : Mutual next first second) (present : first ∈ state.left) : second ∈ state.left := by
  rw [placed.mem_left_iff] at present ⊢
  refine ⟨both.lt bounded present.1, ?_⟩
  intro earlier before other
  exact present.2 earlier before (other.trans both.symm)

theorem head?_classOf {vertex : Nat} (leads : Leads next vertex) (bound : vertex < count) :
    (classOf count next vertex).head? = some vertex := by
  have listed : vertex ∈ classOf count next vertex := mem_classOf_iff.mpr ⟨bound, .refl vertex⟩
  have ascending : (classOf count next vertex).Pairwise (· < ·) := classOf_ascends vertex
  have member : ∀ other ∈ classOf count next vertex, Mutual next vertex other :=
    fun other present => (mem_classOf_iff.mp present).2
  cases members : classOf count next vertex with
  | nil => simp [members] at listed
  | cons first others =>
      rw [members] at listed ascending member
      have both : Mutual next vertex first := member first List.mem_cons_self
      obtain rfl | later := List.mem_cons.mp listed
      · rfl
      · have before : first < vertex := List.rel_of_pairwise_cons ascending later
        exact absurd both.symm (leads first before)

theorem Partition.Placed.place {done : Nat} {state : Partition}
    (placed : state.Placed count next done) (mirrored : Mirrored next previous)
    (bounded : ∀ {vertex other}, other ∈ next vertex → other < count) (bound : done < count) :
    (state.place next previous done).Placed count next (done + 1) := by
  have split : ∀ vertex, (∀ earlier < done + 1, ¬ Mutual next earlier vertex) ↔
      (∀ earlier < done, ¬ Mutual next earlier vertex) ∧ ¬ Mutual next done vertex := by
    intro vertex
    simp only [Nat.forall_lt_succ_right]
  have leading : done ∈ state.left ↔ Leads next done := by
    rw [placed.mem_left_iff]
    exact and_iff_right bound
  by_cases present : done ∈ state.left
  · have part : component next previous state.left done = classOf count next done := by
      refine (component_ascends _ _).eq_of_mem_iff (classOf_ascends done) ?_
      intro vertex
      rw [mem_component_iff mirrored (placed.closed bounded) present, mem_classOf_iff]
      exact ⟨fun both => ⟨both.lt bounded bound, both⟩, fun both => both.2⟩
    rw [Partition.place, if_pos (Std.TreeSet.contains_iff_mem.mpr present), part]
    refine ⟨?_, ?_⟩
    · intro vertex
      rw [mem_foldl_erase_iff, placed.mem_left_iff, split, mem_classOf_iff]
      constructor
      · rintro ⟨⟨small, others⟩, outside⟩
        exact ⟨small, others, fun both => outside ⟨small, both⟩⟩
      · rintro ⟨small, others, outside⟩
        exact ⟨⟨small, others⟩, fun both => outside both.2⟩
    · rw [List.reverse_cons, placed.found_eq, leaders_succ, if_pos (leading.mp present),
        List.map_append, List.map_singleton]
  · have taken := mt leading.mpr present
    rw [Partition.place, if_neg (mt Std.TreeSet.contains_iff_mem.mp present)]
    refine ⟨?_, ?_⟩
    · intro vertex
      rw [placed.mem_left_iff, split]
      constructor
      · rintro ⟨small, others⟩
        refine ⟨small, others, ?_⟩
        intro both
        refine taken ?_
        intro earlier before other
        exact others earlier before (other.trans both)
      · rintro ⟨small, others, -⟩
        exact ⟨small, others⟩
    · rw [placed.found_eq, leaders_succ, if_neg taken]

theorem components_eq (mirrored : Mirrored next previous)
    (bounded : ∀ {vertex other}, other ∈ next vertex → other < count) :
    components count next previous = (leaders next count).map (classOf count next) := by
  have run : ∀ done ≤ count, ((List.range done).foldl (Partition.place next previous)
      { left := Std.TreeSet.ofList (List.range count) }).Placed count next done := by
    intro done
    induction done with
    | zero =>
        intro _
        refine ⟨?_, rfl⟩
        intro vertex
        simp [Std.TreeSet.mem_ofList]
    | succ done ih =>
        intro bound
        rw [List.range_succ, List.foldl_append]
        exact (ih (by omega)).place mirrored bounded (by omega)
  exact (run count (Nat.le_refl count)).found_eq

end Classes

end ClassCoupling.Reachability
