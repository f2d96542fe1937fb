import ClassCoupling.Graph
import ClassCoupling.Reachability

/-!
The graph of classes seen through a coarser key, such as the package. The groups
are the distinct keys in ascending order, numbered from zero. One group depends on
another when some class of the one depends on some class of the other, and edges
inside a group do not show.
-/
namespace ClassCoupling

structure Group (κ : Type) where
  key : κ
  memberCount : Nat
  efferents : Ascending Nat := .empty
  afferents : Ascending Nat := .empty

structure Grouping (κ : Type) [Ord κ] where
  groups : Array (Group κ) := #[]
  ids : Std.TreeMap κ Nat := ∅

namespace Graph

variable {κ : Type} [Ord κ]

/-- The nodes that have each key, those with the highest numbers first. -/
def membersBy (count : Nat) (key : Nat → κ) : Std.TreeMap κ (List Nat) :=
  (List.range count).foldl
    (fun members id => members.alter (key id) fun ids => some (id :: ids.getD [])) ∅

/-- The groups other than `own` of the neighbours of some nodes. -/
def neighbours (neighboursOf : Nat → List Nat) (groupOf : Nat → Nat) (own : Nat)
    (members : List Nat) : Ascending Nat :=
  .ofList ((members.flatMap fun id => (neighboursOf id).map groupOf).filter (· ≠ own))

def groupBy (graph : Graph) (key : Nat → κ) : Grouping κ :=
  let keys := Array.ofFn fun id : Fin graph.size => key id
  let members := membersBy graph.size key
  let ids : Std.TreeMap κ Nat := Std.TreeMap.ofList members.keys.zipIdx
  let positions := keys.map fun key => ids.getD key 0
  let groupOf := fun id => positions.getD id 0
  let group := fun (entry : κ × List Nat) =>
    let own := ids.getD entry.1 0
    { key := entry.1
      memberCount := entry.2.length
      efferents := neighbours graph.efferents groupOf own entry.2
      afferents := neighbours graph.afferents groupOf own entry.2 }
  { groups := (members.toList.map group).toArray, ids }

def packages (graph : Graph) : Grouping String := graph.groupBy fun id => (graph.record id).package

def classes (graph : Graph) : Grouping String := graph.groupBy graph.name

end Graph

namespace Grouping

variable {κ : Type} [Ord κ]

def size (grouping : Grouping κ) : Nat := grouping.groups.size

def isEmpty (grouping : Grouping κ) : Bool := grouping.groups.isEmpty

def find? (grouping : Grouping κ) (key : κ) : Option Nat := grouping.ids[key]?

def efferents (grouping : Grouping κ) (id : Nat) : List Nat :=
  match grouping.groups[id]? with
  | some group => group.efferents.toList
  | none => []

def afferents (grouping : Grouping κ) (id : Nat) : List Nat :=
  match grouping.groups[id]? with
  | some group => group.afferents.toList
  | none => []

def keysOf (grouping : Grouping κ) (ids : List Nat) : List κ :=
  ids.filterMap fun id => (grouping.groups[id]?).map Group.key

/-- The sets of two or more groups that depend on each other, each in ascending order. -/
def cycles (grouping : Grouping κ) : List (List κ) :=
  ((Reachability.components grouping.size grouping.efferents grouping.afferents).filter
    fun part => 1 < part.length).map grouping.keysOf

end Grouping

end ClassCoupling
