import ClassCoupling.NameFilter
import Mathlib.Data.Nat.Find

/-!
Which names a filter accepts. Its prefixes are compared with the beginning of a name. Where
nested classes are left out, a name is meant to have no dollar sign behind its first
character. What is looked at is the first dollar sign alone, so a name that begins with one
passes whatever follows, and these names are the only ones where the two rules differ.
-/
namespace ClassCoupling.NameFilter

structure AdmitsStart (filter : NameFilter) (name : String) : Prop where
  included : filter.includes = [] ∨ ∃ start ∈ filter.includes, start.toList <+: name.toList
  notExcluded : ∀ start ∈ filter.excludes, ¬ start.toList <+: name.toList

def DollarInside (name : String) : Prop :=
  ∃ place, 0 < place ∧ name.toList[place]? = some '$'

/-- The rule for names: the prefixes let them pass, and where nested classes are left out no
dollar sign stands behind the first character. -/
structure Admits (filter : NameFilter) (name : String) : Prop extends AdmitsStart filter name where
  notNested : filter.includeInner = true ∨ ¬ DollarInside name

def FirstDollarInside (name : String) : Prop :=
  ∃ place, 0 < place ∧ name.toList[place]? = some '$' ∧
    ∀ earlier < place, name.toList[earlier]? ≠ some '$'

theorem beginsWith_iff {name start : String} :
    beginsWith name start = true ↔ start.toList <+: name.toList := by
  rw [beginsWith, List.isPrefixOf_iff_prefix]

theorem acceptsStart_iff {filter : NameFilter} {name : String} :
    filter.acceptsStart name = true ↔ filter.AdmitsStart name := by
  have included : (filter.includes.isEmpty || filter.includes.any (beginsWith name)) = true ↔
      filter.includes = [] ∨ ∃ start ∈ filter.includes, start.toList <+: name.toList := by
    simp only [Bool.or_eq_true, List.isEmpty_iff, List.any_eq_true, beginsWith_iff]
  have notExcluded : (!filter.excludes.any (beginsWith name)) = true ↔
      ∀ start ∈ filter.excludes, ¬ start.toList <+: name.toList := by
    simp only [Bool.not_eq_true', List.any_eq_false, beginsWith_iff]
  rw [acceptsStart, Bool.and_eq_true, included, notExcluded]
  exact ⟨fun admitted => ⟨admitted.1, admitted.2⟩,
    fun admitted => ⟨admitted.included, admitted.notExcluded⟩⟩

theorem dollarInside_iff_mem_tail {name : String} :
    DollarInside name ↔ '$' ∈ name.toList.tail := by
  rw [List.mem_iff_getElem?]
  simp only [List.getElem?_tail]
  constructor
  · intro inside
    obtain ⟨place, positive, found⟩ := inside
    refine ⟨place - 1, ?_⟩
    rwa [Nat.sub_add_cancel positive]
  · intro inside
    obtain ⟨place, found⟩ := inside
    exact ⟨place + 1, Nat.succ_pos place, found⟩

theorem firstDollarInside_iff {name : String} :
    FirstDollarInside name ↔ name.toList.head? ≠ some '$' ∧ DollarInside name := by
  rw [List.head?_eq_getElem?]
  constructor
  · intro first
    obtain ⟨place, positive, found, earliest⟩ := first
    exact ⟨earliest 0 positive, place, positive, found⟩
  · intro inside
    obtain ⟨front, place, -, found⟩ := inside
    -- Of the places with a dollar sign the least one is taken.
    have somewhere : ∃ place, name.toList[place]? = some '$' := ⟨place, found⟩
    refine ⟨Nat.find somewhere, ?_, Nat.find_spec somewhere, ?_⟩
    · rw [Nat.find_pos]
      exact front
    · intro earlier before
      exact Nat.find_min somewhere before

theorem isInner_iff {name : String} : isInner name = true ↔ FirstDollarInside name := by
  rw [firstDollarInside_iff, dollarInside_iff_mem_tail, isInner]
  cases name.toList with
  | nil => simp
  | cons first rest => simp

theorem isInner_iff_mem {name : String} :
    isInner name = true ↔ name.toList.head? ≠ some '$' ∧ '$' ∈ name.toList := by
  rw [isInner]
  cases name.toList with
  | nil => simp
  | cons first rest =>
      simp only [Bool.and_eq_true, bne_iff_ne, ne_eq, List.contains_iff_mem, List.head?_cons,
        Option.some.injEq, List.mem_cons]
      refine and_congr_right fun other => ?_
      rw [eq_comm, or_iff_right other]

theorem acceptsInner_iff {filter : NameFilter} {name : String} :
    filter.acceptsInner name = true ↔
      filter.includeInner = true ∨ ¬ FirstDollarInside name := by
  rw [acceptsInner, Bool.or_eq_true, Bool.not_eq_true', ← Bool.not_eq_true, isInner_iff]

theorem accepts_iff {filter : NameFilter} {name : String} :
    filter.accepts name = true ↔
      filter.AdmitsStart name ∧ (filter.includeInner = true ∨ ¬ FirstDollarInside name) := by
  rw [accepts, Bool.and_eq_true, acceptsStart_iff, acceptsInner_iff]

theorem admits_iff {filter : NameFilter} {name : String} :
    filter.Admits name ↔
      filter.AdmitsStart name ∧ (filter.includeInner = true ∨ ¬ DollarInside name) :=
  ⟨fun admitted => ⟨admitted.toAdmitsStart, admitted.notNested⟩,
    fun admitted => ⟨admitted.1, admitted.2⟩⟩

/-- A filter asks for the prefixes and for the place of the first dollar sign. The rule for
names holds of what it accepts, except for names with a dollar sign in front and another
one inside. -/
theorem accepts_by_first_dollar (filter : NameFilter) (name : String) :
    (filter.accepts name = true ↔
      filter.AdmitsStart name ∧ (filter.includeInner = true ∨ ¬ FirstDollarInside name)) ∧
    (filter.Admits name ↔ filter.accepts name = true ∧
      (filter.includeInner = true ∨ name.toList.head? ≠ some '$' ∨ ¬ DollarInside name)) := by
  refine ⟨accepts_iff, ?_⟩
  rw [admits_iff, accepts_iff, firstDollarInside_iff, and_assoc]
  refine and_congr_right fun _ => ?_
  rw [← or_and_left]
  by_cases front : name.toList.head? = some '$' <;> simp [front]

theorem accepts_despite_dollar_inside :
    ({ includeInner := false } : NameFilter).accepts "$A$B" = true ∧
      ¬ ({ includeInner := false } : NameFilter).Admits "$A$B" := by
  refine ⟨by decide, fun admitted => ?_⟩
  have inside : DollarInside "$A$B" := ⟨2, by decide, by decide⟩
  obtain included | plain := admitted.notNested
  · cases included
  · exact plain inside

end ClassCoupling.NameFilter
