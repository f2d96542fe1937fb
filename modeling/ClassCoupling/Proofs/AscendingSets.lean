import ClassCoupling.Ascending
import Mathlib.Data.List.Sort

/-!
Sets as strictly ascending lists. Such a list holds nothing twice and is known by its
items, so two sets with the same items are the same value.
-/
namespace ClassCoupling

attribute [ext] Ascending

variable {κ : Type} [Ord κ] [Std.TransOrd κ]

theorem compare_self_ne_lt (item : κ) : compare item item ≠ .lt := by
  have same : compare item item = .eq := Std.ReflCmp.compare_self
  rw [same]
  decide

theorem eq_of_ascending {first second : List κ}
    (firstAscends : first.Pairwise fun first second => compare first second = .lt)
    (secondAscends : second.Pairwise fun first second => compare first second = .lt)
    (same : ∀ item, item ∈ first ↔ item ∈ second) : first = second := by
  have irreflexive : Std.Irrefl fun first second : κ => compare first second = .lt :=
    ⟨compare_self_ne_lt⟩
  have antisymmetric : Std.Antisymm fun first second : κ => compare first second = .lt := by
    refine ⟨fun first second before after => ?_⟩
    rw [Std.OrientedCmp.gt_of_lt before] at after
    cases after
  exact firstAscends.eq_of_mem_iff secondAscends same

theorem nodup_of_ascending {items : List κ}
    (ascends : items.Pairwise fun first second => compare first second = .lt) : items.Nodup := by
  refine ascends.imp ?_
  rintro first second before rfl
  exact compare_self_ne_lt first before

theorem exists_ne_of_ascending {items : List κ} (length : 2 ≤ items.length)
    (ascends : items.Pairwise fun first second => compare first second = .lt) (given : κ) :
    ∃ item ∈ items, given ≠ item := by
  match items with
  | [] | [_] => simp at length
  | first :: second :: others =>
      by_cases same : given = first
      · subst same
        have distinct : given ≠ second :=
          List.rel_of_pairwise_cons (nodup_of_ascending ascends) List.mem_cons_self
        exact ⟨second, by simp, distinct⟩
      · exact ⟨first, List.mem_cons_self, same⟩

namespace Ascending

theorem eq_of_mem_iff {first second : Ascending κ}
    (same : ∀ item, item ∈ first.toList ↔ item ∈ second.toList) : first = second := by
  ext1
  exact eq_of_ascending first.sorted second.sorted same

theorem ofList_filter [Std.LawfulEqOrd κ] [BEq κ] [LawfulBEq κ] [Std.LawfulBEqOrd κ]
    (items : List κ) (keep : κ → Bool) :
    ofList (items.filter keep) = (ofList items).filter keep := by
  apply eq_of_mem_iff
  intro item
  rw [mem_ofList, filter, List.mem_filter, List.mem_filter, mem_ofList]

end Ascending

end ClassCoupling
