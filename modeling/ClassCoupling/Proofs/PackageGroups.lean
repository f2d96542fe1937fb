import ClassCoupling.Proofs.ArrayReferences
import ClassCoupling.Proofs.CheckedText
import ClassCoupling.Proofs.Coarsening

/-!
Grouping by package. A name without a dot is in the unnamed package, and any other name in the
package that stands before its last dot. The keys of the groups tell packages apart with one
exception: the key of the unnamed package is a name like any other, so a package of that
name goes into the same group. Groups are packages exactly where the two do not meet.
-/
namespace ClassCoupling

def Unqualified (name : String) : Prop := '.' ∉ name.toList

instance (name : String) : Decidable (Unqualified name) :=
  inferInstanceAs (Decidable ('.' ∉ name.toList))

/-- The package stands before the last dot of the name. -/
def QualifiedBy (package name : String) : Prop :=
  ∃ simple, name.toList = package.toList ++ '.' :: simple ∧ '.' ∉ simple

inductive SamePackage (first second : String) : Prop
  | unnamed (firstBare : Unqualified first) (secondBare : Unqualified second)
  | named {package : String} (firstInside : QualifiedBy package first)
      (secondInside : QualifiedBy package second)

/-- The first name has no package, and that of the second is called `Default`. -/
def MeetsDefault (first second : String) : Prop :=
  Unqualified first ∧ QualifiedBy "Default" second

theorem Unqualified.packageOf_eq {name : String} (bare : Unqualified name) :
    packageOf name = "Default" := by
  have dropped := Checked.dropWhile_of_notMem (mt List.mem_reverse.mp bare)
  simp only [packageOf, dropped]

namespace QualifiedBy

variable {package name : String}

theorem packageOf_eq (inside : QualifiedBy package name) : packageOf name = package := by
  obtain ⟨simple, whole, plain⟩ := inside
  have dropped : name.toList.reverse.dropWhile (· ≠ '.') = '.' :: package.toList.reverse := by
    refine dropWhile_eq_cons_iff.mpr ⟨simple.reverse, by simp [whole], ?_, by simp⟩
    intro char present
    rw [decide_eq_true_eq]
    intro dot
    exact plain (dot ▸ List.mem_reverse.mp present)
  simp only [packageOf, dropped, List.reverse_reverse, String.ofList_toList]

theorem not_unqualified (inside : QualifiedBy package name) : ¬ Unqualified name := by
  obtain ⟨simple, whole, -⟩ := inside
  simp [Unqualified, whole]

end QualifiedBy

theorem unqualified_or_qualified (name : String) :
    Unqualified name ∨ QualifiedBy (packageOf name) name := by
  by_cases dotted : '.' ∈ name.toList
  · obtain ⟨back, front, split, plain⟩ := List.eq_append_cons_of_mem (List.mem_reverse.mpr dotted)
    have inside : QualifiedBy (String.ofList front.reverse) name := by
      refine ⟨back.reverse, ?_, mt List.mem_reverse.mp plain⟩
      rw [← List.reverse_reverse name.toList, split]
      simp
    exact .inr (inside.packageOf_eq.symm ▸ inside)
  · exact .inl dotted

theorem packageOf_eq_packageOf_iff {first second : String} :
    packageOf first = packageOf second ↔
      SamePackage first second ∨ MeetsDefault first second ∨ MeetsDefault second first := by
  constructor
  · intro same
    -- Where only one of the names has a dot, the other one has the key `Default`.
    obtain firstBare | firstInside := unqualified_or_qualified first
    · obtain secondBare | secondInside := unqualified_or_qualified second
      · exact .inl (.unnamed firstBare secondBare)
      · rw [← same, firstBare.packageOf_eq] at secondInside
        exact .inr (.inl ⟨firstBare, secondInside⟩)
    · obtain secondBare | secondInside := unqualified_or_qualified second
      · rw [same, secondBare.packageOf_eq] at firstInside
        exact .inr (.inr ⟨secondBare, firstInside⟩)
      · exact .inl (.named firstInside (same ▸ secondInside))
  · intro related
    obtain (⟨firstBare, secondBare⟩ | ⟨firstInside, secondInside⟩) | meets | meets := related
    · rw [firstBare.packageOf_eq, secondBare.packageOf_eq]
    · rw [firstInside.packageOf_eq, secondInside.packageOf_eq]
    · rw [meets.1.packageOf_eq, meets.2.packageOf_eq]
    · rw [meets.1.packageOf_eq, meets.2.packageOf_eq]

theorem MeetsDefault.not_samePackage {first second : String} (meets : MeetsDefault first second) :
    ¬ SamePackage first second := by
  intro same
  cases same with
  | unnamed _ secondBare => exact meets.2.not_unqualified secondBare
  | named firstInside _ => exact firstInside.not_unqualified meets.1

namespace Graph

def packageGroup? (graph : Graph) (id : Nat) : Option Nat :=
  graph.packages.find? (graph.record id).package

structure GroupsPackages (graph : Graph) : Prop where
  grouped : ∀ id < graph.size, ∃ place < graph.packages.size, graph.packageGroup? id = some place
  memberCount_eq : ∀ place group, graph.packages.groups[place]? = some group →
    group.memberCount = (List.range graph.size).countP fun id => graph.packageGroup? id = some place
  together_iff : ∀ id < graph.size, ∀ other < graph.size,
    (graph.packageGroup? id = graph.packageGroup? other ↔
      SamePackage (graph.name id) (graph.name other) ∨
        MeetsDefault (graph.name id) (graph.name other) ∨
        MeetsDefault (graph.name other) (graph.name id))
  exact_iff : (∀ id < graph.size, ∀ other < graph.size,
      (graph.packageGroup? id = graph.packageGroup? other ↔
        SamePackage (graph.name id) (graph.name other))) ↔
    ∀ id < graph.size, ∀ other < graph.size, ¬ MeetsDefault (graph.name id) (graph.name other)

section Groups

variable {graph : Graph} {id other : Nat}

theorem packageGroup?_eq_some_iff {place : Nat} :
    graph.packageGroup? id = some place ↔
      (graph.groupKeys fun id => (graph.record id).package)[place]? =
        some (packageOf (graph.name id)) :=
  find?_groupBy_iff graph _

theorem exists_packageGroup (bound : id < graph.size) :
    ∃ place < graph.packages.size, graph.packageGroup? id = some place := by
  have known := (graph.mem_groupKeys_iff fun id => (graph.record id).package).mpr ⟨id, bound, rfl⟩
  obtain ⟨place, present⟩ := List.mem_iff_getElem?.mp known
  refine ⟨place, ?_, packageGroup?_eq_some_iff.mpr present⟩
  rw [packages, size_groupBy]
  exact (List.getElem?_eq_some_iff.mp present).1

theorem packageGroup?_eq_iff (bound : id < graph.size) :
    graph.packageGroup? id = graph.packageGroup? other ↔
      packageOf (graph.name id) = packageOf (graph.name other) := by
  obtain ⟨place, -, grouped⟩ := exists_packageGroup bound
  have present := packageGroup?_eq_some_iff.mp grouped
  rw [grouped, eq_comm, packageGroup?_eq_some_iff, present, Option.some.injEq]

theorem memberCount_packages {place : Nat} {group : Group String}
    (present : graph.packages.groups[place]? = some group) :
    group.memberCount =
      (List.range graph.size).countP fun id => graph.packageGroup? id = some place := by
  rw [packages, getElem?_groups] at present
  obtain ⟨wanted, atPlace, rfl⟩ := Option.map_eq_some_iff.mp present
  refine (length_withKey graph.size _ wanted).trans (List.countP_congr fun id _ => ?_)
  rw [decide_eq_true_eq, decide_eq_true_eq, packageGroup?_eq_some_iff, atPlace, Option.some.injEq,
    eq_comm]
  rfl

theorem packageGroup?_eq_iff_samePackage (bound : id < graph.size) :
    graph.packageGroup? id = graph.packageGroup? other ↔
      SamePackage (graph.name id) (graph.name other) ∨
        MeetsDefault (graph.name id) (graph.name other) ∨
        MeetsDefault (graph.name other) (graph.name id) := by
  rw [packageGroup?_eq_iff bound, packageOf_eq_packageOf_iff]

end Groups

/-- Two nodes are in one group by package when their names have the same package, or when one
has none and the package of the other is called `Default`. -/
theorem packages_merge_only_at_default (records : List ClassRecord) :
    (assemble records).GroupsPackages where
  grouped := fun _ => exists_packageGroup
  memberCount_eq := fun _ _ => memberCount_packages
  together_iff := fun _ bound _ _ => packageGroup?_eq_iff_samePackage bound
  exact_iff := by
    constructor
    · intro tells id bound other otherBound meets
      have together := (packageGroup?_eq_iff_samePackage bound).mpr (.inr (.inl meets))
      exact meets.not_samePackage ((tells id bound other otherBound).mp together)
    · intro apart id bound other otherBound
      rw [packageGroup?_eq_iff_samePackage bound]
      have once := apart id bound other otherBound
      have again := apart other otherBound id bound
      simp only [once, again, or_false]

def defaulted : List ClassRecord :=
  [{ name := "A", references := .ofList ["q.Q"] },
    { name := "q.Q", references := .ofList ["Default.B"] },
    { name := "Default.B" }]

/-- The unnamed package and the package `Default` are one group, and this makes a cycle of two
groups out of a chain of three packages. -/
theorem unnamed_package_merged_with_default :
    (assemble defaulted).packageGroup? 0 = (assemble defaulted).packageGroup? 2 ∧
      ¬ SamePackage ((assemble defaulted).name 0) ((assemble defaulted).name 2) ∧
      ∃ keys ∈ (assemble defaulted).packages.cycles, "Default" ∈ keys ∧ "q" ∈ keys := by
  have bare : (assemble defaulted).name 0 = "A" := by decide +kernel
  have inside : (assemble defaulted).name 2 = "Default.B" := by decide +kernel
  have meets : MeetsDefault "A" "Default.B" := ⟨by decide +kernel, ['B'], by decide, by decide⟩
  have forth : (assemble defaulted).packages.DependsOn "Default" "q" :=
    ⟨0, 1, by decide +kernel, by decide +kernel, by decide +kernel⟩
  have back : (assemble defaulted).packages.DependsOn "q" "Default" :=
    ⟨1, 0, by decide +kernel, by decide +kernel, by decide +kernel⟩
  refine ⟨by decide +kernel, ?_, ?_⟩
  · rw [bare, inside]
    exact meets.not_samePackage
  · exact (exists_mem_cycles_groupBy_iff (assemble_sound defaulted) (by decide)).mpr
      ⟨.single forth, .single back⟩

end Graph

end ClassCoupling
