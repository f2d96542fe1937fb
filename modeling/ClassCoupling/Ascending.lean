import Std.Data.TreeSet

/-!
Finite sets written as strictly ascending lists. Every set has one such list,
so equal sets are equal values, and a set is traversed in the order of its type.
-/
namespace ClassCoupling

structure Ascending (α : Type) [Ord α] where
  toList : List α
  sorted : toList.Pairwise (fun a b => compare a b = .lt) := by simp
deriving DecidableEq

namespace Ascending

variable {α : Type} [Ord α]

def empty : Ascending α where
  toList := []

instance : Inhabited (Ascending α) := ⟨empty⟩

/-- The set of the items, whatever their order and however often each occurs. -/
def ofList [Std.TransOrd α] (items : List α) : Ascending α where
  toList := (Std.TreeSet.ofList items compare).toList
  sorted := Std.TreeSet.ordered_toList

theorem mem_ofList [Std.TransOrd α] [Std.LawfulEqOrd α] [BEq α] [LawfulBEq α]
    [Std.LawfulBEqOrd α] (items : List α) (item : α) :
    item ∈ (ofList items).toList ↔ item ∈ items := by
  simp [ofList, Std.TreeSet.mem_toList, Std.TreeSet.mem_ofList]

def size (items : Ascending α) : Nat := items.toList.length

def contains [BEq α] (items : Ascending α) (item : α) : Bool := items.toList.contains item

def filter (items : Ascending α) (keep : α → Bool) : Ascending α where
  toList := items.toList.filter keep
  sorted := items.sorted.filter keep

end Ascending

end ClassCoupling
