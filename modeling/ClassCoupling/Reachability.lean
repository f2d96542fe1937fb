import Std.Data.TreeSet

/-!
Which vertices a search reaches, and the vertices that reach each other. The
search keeps the set of vertices it has not met yet and takes each out of it
once, so it ends whatever the edges are. Two vertices belong together when each
is met by a search from the other: one search follows the edges from a vertex and
one follows them backwards.
-/
namespace ClassCoupling.Reachability

theorem size_erase_lt {vertices : Std.TreeSet Nat} {vertex : Nat}
    (member : vertices.contains vertex = true) :
    (vertices.erase vertex).size < vertices.size := by
  have filled : vertices.isEmpty = false :=
    Std.TreeSet.isEmpty_eq_false_iff_exists_contains_eq_true.mpr ⟨vertex, member⟩
  rw [Std.TreeSet.isEmpty_eq_size_eq_zero] at filled
  have positive : vertices.size ≠ 0 := by simpa using filled
  rw [Std.TreeSet.size_erase]
  simp only [member, ↓reduceIte]
  omega

def unreached (next : Nat → List Nat) (unseen : Std.TreeSet Nat) : List Nat → Std.TreeSet Nat
  | [] => unseen
  | vertex :: todo =>
      if _member : unseen.contains vertex = true then
        unreached next (unseen.erase vertex) (next vertex ++ todo)
      else unreached next unseen todo
termination_by todo => (unseen.size, todo.length)
decreasing_by
  · exact Prod.Lex.left _ _ (size_erase_lt _member)
  · exact Prod.Lex.right _ (by simp)

/-- The vertices among `left` that reach `vertex` and are reached from it without
leaving `left`, in ascending order. -/
def component (next previous : Nat → List Nat) (left : Std.TreeSet Nat) (vertex : Nat) :
    List Nat :=
  let ahead := unreached next left [vertex]
  let behind := unreached previous left [vertex]
  left.toList.filter fun other => !ahead.contains other && !behind.contains other

structure Partition where
  left : Std.TreeSet Nat
  found : List (List Nat) := []

def Partition.place (next previous : Nat → List Nat) (state : Partition) (vertex : Nat) :
    Partition :=
  if state.left.contains vertex then
    let part := component next previous state.left vertex
    { left := part.foldl (fun left other => left.erase other) state.left
      found := part :: state.found }
  else state

def components (count : Nat) (next previous : Nat → List Nat) : List (List Nat) :=
  let vertices := List.range count
  let start : Partition := { left := Std.TreeSet.ofList vertices }
  (vertices.foldl (Partition.place next previous) start).found.reverse

end ClassCoupling.Reachability
