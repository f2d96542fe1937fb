import ClassCoupling.Inputs
import ClassCoupling.Proofs.NameAcceptance
import ClassCoupling.Proofs.NormalReferences
import Mathlib.Data.List.DropRight

/-!
The paths of class files. The parts of a class name are the directories that lead to its file,
and the last part is the name of the file. The filter sees the whole name of an archive
member before anything is decoded, but of a loose file it sees the last name of the path
only. A dollar sign in front of the package therefore shields a nested class in an archive
and not in a directory.
-/
namespace ClassCoupling

namespace Path

/-- What may stand in front of the last piece of a text: nothing, or a text that ends in the
separator. -/
inductive IsFront (separator : Char) : List Char → Prop
  | empty : IsFront separator []
  | ended (text : List Char) : IsFront separator (text ++ [separator])

theorem IsFront.append {separator : Char} {first second : List Char}
    (firstFront : IsFront separator first) (secondFront : IsFront separator second) :
    IsFront separator (first ++ second) := by
  cases secondFront with
  | empty => rwa [List.append_nil]
  | ended text =>
      rw [← List.append_assoc]
      exact .ended (first ++ text)

theorem IsFront.map {separator other : Char} {change : Char → Char} {front : List Char}
    (isFront : IsFront separator front) (becomes : change separator = other) :
    IsFront other (front.map change) := by
  cases isFront with
  | empty => exact .empty
  | ended text =>
      rw [List.map_append, List.map_singleton, becomes]
      exact .ended (text.map change)

theorem exists_splitOn_eq {separator : Char} {front last : List Char}
    (isFront : IsFront separator front) (plain : separator ∉ last) :
    ∃ above, (front ++ last).splitOn separator = above ++ [last] := by
  cases isFront with
  | empty => exact ⟨[], List.splitOn_eq_singleton plain⟩
  | ended text =>
      refine ⟨text.splitOn separator, ?_⟩
      rw [List.append_assoc, List.singleton_append, List.splitOn_append_cons_self,
        List.splitOn_eq_singleton plain]

structure IsName (piece : List Char) : Prop where
  filled : piece ≠ []
  noSlash : '/' ∉ piece
  notHere : piece ≠ ['.']
  notUp : piece ≠ ['.', '.']

theorem IsName.component?_eq {piece : List Char} (isName : IsName piece) :
    component? piece = some (.name (String.ofList piece)) := by
  simp [component?, isName.filled, isName.notHere, isName.notUp]

theorem IsName.isRooted_eq {name : List Char} (isName : IsName name) :
    isRooted (String.ofList name) = false := by
  rw [isRooted, String.toList_ofList, beq_eq_false_iff_ne]
  intro rooted
  exact isName.noSlash (List.mem_of_mem_head? rooted)

theorem fileName?_append {front name : List Char} (isFront : IsFront '/' front)
    (isName : IsName name) :
    fileName? (String.ofList (front ++ name)) = some (String.ofList name) := by
  have last : (components (String.ofList (front ++ name))).getLast? =
      some (.name (String.ofList name)) := by
    rw [components, String.toList_ofList]
    cases isFront with
    | empty =>
        have first : firstComponent? name = some (.name (String.ofList name)) := by
          rw [firstComponent?, if_neg isName.notHere, isName.component?_eq]
        simp [List.splitOn_eq_singleton isName.noSlash, isName.isRooted_eq, first]
    | ended text =>
        obtain ⟨piece, pieces, cut⟩ := List.exists_cons_of_ne_nil (List.splitOn_ne_nil '/' text)
        rw [List.append_assoc, List.singleton_append, List.splitOn_append_cons_self,
          List.splitOn_eq_singleton isName.noSlash, cut, List.cons_append]
        simp [isName.component?_eq]
  rw [fileName?, last]

theorem exists_join_eq (base : String) {name : List Char} (isName : IsName name) :
    ∃ front, IsFront '/' front ∧
      join base (String.ofList name) = String.ofList (front ++ name) := by
  rw [join, isName.isRooted_eq]
  by_cases empty : base = ""
  · exact ⟨[], .empty, by simp [empty]⟩
  · by_cases ended : base.toList.getLast? = some '/'
    · refine ⟨base.toList, ?_, by simp [empty, ended]⟩
      obtain ⟨text, whole⟩ := List.getLast?_eq_some_iff.mp ended
      rw [whole]
      exact .ended text
    · refine ⟨base.toList ++ ['/'], .ended _, ?_⟩
      rw [← String.toList_inj]
      simp [empty, ended]

end Path

/-- A class name of parts with dots between them, none of them empty or with a slash in it. -/
structure IsDotted (name : String) : Prop where
  filled : ∀ part ∈ name.toList.splitOn '.', part ≠ []
  noSlash : '/' ∉ name.toList

def simpleNameOf (name : String) : List Char := name.toList.rtakeWhile (· ≠ '.')

def classEnding : List Char := ['.', 'c', 'l', 'a', 's', 's']

def fileNameOf (name : String) : List Char := simpleNameOf name ++ classEnding

/-- The name of the archive member that a class is in: its parts with slashes between them and
the ending of class files. -/
def memberNameOf (name : String) : String :=
  String.ofList (name.toList.map (fun char => if char = '.' then '/' else char) ++ classEnding)

/-- The names that lead to the file of a class from the directory of the outermost package. -/
def stepsTo (name : String) : Place :=
  ((memberNameOf name).toList.splitOn '/').map String.ofList

theorem toList_memberNameOf (name : String) :
    (memberNameOf name).toList =
      name.toList.map (fun char => if char = '.' then '/' else char) ++ classEnding :=
  String.toList_ofList

theorem exists_package (name : String) :
    ∃ package, Path.IsFront '.' package ∧ name.toList = package ++ simpleNameOf name := by
  refine ⟨name.toList.rdropWhile (· ≠ '.'), ?_, List.rdropWhile_append_rtakeWhile.symm⟩
  by_cases empty : name.toList.rdropWhile (· ≠ '.') = []
  · rw [empty]
    exact .empty
  · have last := List.rdropWhile_last_not _ _ empty
    rw [decide_eq_true_eq, not_not] at last
    rw [← List.dropLast_append_getLast empty, last]
    exact .ended _

theorem dot_notMem_simpleNameOf (name : String) : '.' ∉ simpleNameOf name := by
  intro inside
  simpa using List.mem_rtakeWhile_imp inside

theorem simpleNameOf_subset (name : String) : simpleNameOf name ⊆ name.toList := by
  obtain ⟨package, -, whole⟩ := exists_package name
  rw [whole]
  exact List.subset_append_right package (simpleNameOf name)

theorem exists_memberName_front (name : String) :
    ∃ front, Path.IsFront '/' front ∧ (memberNameOf name).toList = front ++ fileNameOf name := by
  obtain ⟨package, isFront, whole⟩ := exists_package name
  refine ⟨package.map fun char => if char = '.' then '/' else char, isFront.map (if_pos rfl), ?_⟩
  rw [toList_memberNameOf, whole, List.map_append,
    map_replace_of_notMem (dot_notMem_simpleNameOf name), List.append_assoc, fileNameOf]

namespace IsDotted

variable {name : String} (isDotted : IsDotted name)

include isDotted

theorem simpleName_ne_nil : simpleNameOf name ≠ [] := by
  obtain ⟨package, isFront, whole⟩ := exists_package name
  obtain ⟨above, cut⟩ := Path.exists_splitOn_eq isFront (dot_notMem_simpleNameOf name)
  refine isDotted.filled (simpleNameOf name) ?_
  rw [whole, cut]
  simp

theorem isName_fileName : Path.IsName (fileNameOf name) := by
  have length : 6 ≤ (fileNameOf name).length := by simp [fileNameOf, classEnding]
  constructor
  case filled =>
    intro empty
    simp [empty] at length
  case noSlash =>
    rw [fileNameOf, List.mem_append]
    rintro (inside | inside)
    · exact isDotted.noSlash (simpleNameOf_subset name inside)
    · simp [classEnding] at inside
  case notHere =>
    intro here
    simp [here] at length
  case notUp =>
    intro up
    simp [up] at length

theorem isInner_fileName :
    NameFilter.isInner (String.ofList (fileNameOf name)) =
      NameFilter.isInner (String.ofList (simpleNameOf name)) := by
  have noDollar : '$' ∉ classEnding := by decide
  rw [Bool.eq_iff_iff, NameFilter.isInner_iff_mem, NameFilter.isInner_iff_mem,
    String.toList_ofList, String.toList_ofList, fileNameOf, List.mem_append, or_iff_left noDollar,
    List.head?_append_of_ne_nil _ isDotted.simpleName_ne_nil]

theorem classify_append {front : List Char} (isFront : Path.IsFront '/' front)
    (filter : NameFilter) :
    Input.classify filter (String.ofList (front ++ fileNameOf name)) =
      if filter.acceptsInner (String.ofList (simpleNameOf name)) then some .classFile
      else none := by
  have file := Path.fileName?_append isFront isDotted.isName_fileName
  have cut : (fileNameOf name).splitOn '.' =
      [simpleNameOf name, ['c', 'l', 'a', 's', 's']] := by
    rw [fileNameOf, classEnding, List.splitOn_append_cons_self,
      List.splitOn_eq_singleton (dot_notMem_simpleNameOf name),
      List.splitOn_eq_singleton (by decide)]
    rfl
  have ending : Path.extension? (String.ofList (front ++ fileNameOf name)) = some "class" := by
    rw [Path.extension?, file]
    simp [cut, isDotted.simpleName_ne_nil]
  generalize String.ofList (front ++ fileNameOf name) = path at file ending
  simp [Input.classify, ending, file, NameFilter.acceptsInner, isDotted.isInner_fileName]

theorem classify_pathOf (search : Search) (filter : NameFilter) :
    Input.classify filter (search.pathOf (stepsTo name)) =
      if filter.acceptsInner (String.ofList (simpleNameOf name)) then some .classFile
      else none := by
  have isName := isDotted.isName_fileName
  obtain ⟨within, withinFront, ends⟩ := exists_memberName_front name
  obtain ⟨above, cut⟩ := Path.exists_splitOn_eq withinFront isName.noSlash
  have steps : stepsTo name = above.map String.ofList ++ [String.ofList (fileNameOf name)] := by
    rw [stepsTo, ends, cut, List.map_append, List.map_singleton]
  obtain ⟨front, isFront, joined⟩ :=
    Path.exists_join_eq ((above.map String.ofList).foldl Path.join search.root) isName
  rw [Search.pathOf, steps, List.foldl_append, List.foldl_cons, List.foldl_nil, joined,
    isDotted.classify_append isFront]

theorem isInner_memberName : NameFilter.isInner (memberNameOf name) = NameFilter.isInner name := by
  have noDollar : '$' ∉ classEnding := by decide
  obtain ⟨first, rest, whole⟩ : ∃ first rest, name.toList = first :: rest := by
    refine List.exists_cons_of_ne_nil ?_
    intro empty
    refine isDotted.simpleName_ne_nil (List.eq_nil_iff_forall_not_mem.mpr ?_)
    intro char inside
    simpa [empty] using simpleNameOf_subset name inside
  have dollar (char : Char) : (if char = '.' then '/' else char) = '$' ↔ char = '$' := by
    by_cases dot : char = '.'
    · simp [dot]
    · rw [if_neg dot]
  have inside : '$' ∈ name.toList.map (fun char => if char = '.' then '/' else char) ↔
      '$' ∈ name.toList := by
    simp only [List.mem_map, dollar, exists_eq_right]
  rw [Bool.eq_iff_iff, NameFilter.isInner_iff_mem, NameFilter.isInner_iff_mem,
    toList_memberNameOf, List.mem_append, or_iff_left noDollar, inside]
  refine and_congr_left' (not_congr ?_)
  simp [whole, dollar]

end IsDotted

/-- A name with a dollar sign in front of it, and one inside its last part that is not in front
there. -/
structure Veiled (name : String) : Prop where
  front : name.toList.head? = some '$'
  unshielded : ¬ (simpleNameOf name).head? = some '$'
  nested : '$' ∈ simpleNameOf name

/-- The last part of an accepted name passes the test for nested classes unless a dollar sign in
front was what let the name pass. -/
theorem acceptsInner_simpleName_iff {filter : NameFilter} {name : String}
    (accepted : filter.accepts name = true) :
    filter.acceptsInner (String.ofList (simpleNameOf name)) = true ↔
      filter.includeInner = true ∨ ¬ Veiled name := by
  rw [NameFilter.acceptsInner, Bool.or_eq_true, Bool.not_eq_true', ← Bool.not_eq_true,
    NameFilter.isInner_iff_mem, String.toList_ofList]
  cases inner : filter.includeInner with
  | true => simp
  | false =>
      simp only [Bool.false_eq_true, false_or]
      refine not_congr ⟨?_, fun veiled => ⟨veiled.unshielded, veiled.nested⟩⟩
      rintro ⟨unshielded, nested⟩
      have passes : ¬ NameFilter.isInner name = true := by
        rw [NameFilter.accepts, NameFilter.acceptsInner, inner, Bool.false_or, Bool.and_eq_true,
          Bool.not_eq_true'] at accepted
        rw [accepted.2]
        exact Bool.false_ne_true
      rw [NameFilter.isInner_iff_mem, not_and', not_not] at passes
      exact ⟨passes (simpleNameOf_subset name nested), unshielded, nested⟩

structure PassesNameChecks (filter : NameFilter) (name : String) : Prop where
  inArchive : filter.acceptsInner (memberNameOf name) = true
  loose : ∀ front, Path.IsFront '/' front →
    (Input.classify filter (String.ofList (front ++ (memberNameOf name).toList)) =
        some .classFile ↔
      filter.includeInner = true ∨ ¬ Veiled name)

theorem IsDotted.passesNameChecks {filter : NameFilter} {name : String} (isDotted : IsDotted name)
    (accepted : filter.accepts name = true) : PassesNameChecks filter name := by
  constructor
  case inArchive =>
    rw [NameFilter.accepts, Bool.and_eq_true] at accepted
    rw [NameFilter.acceptsInner, isDotted.isInner_memberName]
    exact accepted.2
  case loose =>
    intro front isFront
    obtain ⟨within, withinFront, ends⟩ := exists_memberName_front name
    rw [ends, ← List.append_assoc, isDotted.classify_append (isFront.append withinFront),
      ← acceptsInner_simpleName_iff accepted]
    split <;> simp [*]

end ClassCoupling
