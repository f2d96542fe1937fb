import ClassCoupling.ClassFile.Descriptor

/-!
The grammar of descriptors, and the class names that occur in one. Cutting a descriptor at
each `;` and looking for the first `L` of a piece finds those names: the letters, brackets
and parentheses between two class types are no `L` and no `;`, so the `L` found is the one
that opens a class type, and a name has no `;` in it, so the next cut is the one that closes
it. A name may hold any other character, `L` and the brackets included.
-/
namespace ClassCoupling.Descriptor

inductive Primitive where
  | byte
  | char
  | double
  | float
  | int
  | long
  | short
  | boolean

def Primitive.letter : Primitive → Char
  | byte => 'B'
  | char => 'C'
  | double => 'D'
  | float => 'F'
  | int => 'I'
  | long => 'J'
  | short => 'S'
  | boolean => 'Z'

/-- A name that a descriptor can hold: it does not close before its end. -/
structure ClassName where
  text : String
  closed : ';' ∉ text.toList

inductive FieldType where
  | primitive (kind : Primitive)
  | object (name : ClassName)
  | array (element : FieldType)

namespace FieldType

def spell : FieldType → List Char
  | primitive kind => [kind.letter]
  | object name => 'L' :: (name.text.toList ++ [';'])
  | array element => '[' :: element.spell

def descriptor (type : FieldType) : String := String.ofList type.spell

def names : FieldType → List String
  | primitive _ => []
  | object name => [name.text]
  | array element => element.names

end FieldType

structure MethodType where
  parameters : List FieldType
  /-- Nothing stands for `V`, the result of a method that gives none. -/
  result : Option FieldType

namespace MethodType

def spell (type : MethodType) : List Char :=
  '(' :: (type.parameters.flatMap FieldType.spell ++ ')' :: type.result.elim ['V'] FieldType.spell)

def descriptor (type : MethodType) : String := String.ofList type.spell

def names (type : MethodType) : List String :=
  type.parameters.flatMap FieldType.names ++ type.result.elim [] FieldType.names

end MethodType

theorem splitOn_cons_of_ne {mark char : Char} (other : char ≠ mark) (rest : List Char) :
    ∃ first others, rest.splitOn mark = first :: others ∧
      (char :: rest).splitOn mark = (char :: first) :: others := by
  obtain ⟨first, others, found⟩ := List.exists_cons_of_ne_nil (List.splitOn_ne_nil mark rest)
  refine ⟨first, others, found, ?_⟩
  rw [List.splitOn_cons_eq_if_modifyHead, if_neg (by simpa using other), found,
    List.modifyHead_cons]

def scan (text : List Char) : List String :=
  ((text.splitOn ';').filterMap afterFirstL).map String.ofList

theorem classNames_ofList (text : List Char) : classNames (String.ofList text) = scan text := by
  rw [classNames, String.toList_ofList, scan]

theorem scan_nil : scan [] = [] := rfl

theorem scan_cons {char : Char} (noCut : char ≠ ';') (noStart : char ≠ 'L') (rest : List Char) :
    scan (char :: rest) = scan rest := by
  obtain ⟨first, others, found, cut⟩ := splitOn_cons_of_ne noCut rest
  have same : afterFirstL (char :: first) = afterFirstL first := by simp [afterFirstL, noStart]
  rw [scan, scan, cut, found, List.filterMap_cons, List.filterMap_cons, same]

theorem scan_object (name : ClassName) (rest : List Char) :
    scan ('L' :: (name.text.toList ++ ';' :: rest)) = name.text :: scan rest := by
  have absent : ';' ∉ 'L' :: name.text.toList := by simp [name.closed]
  have found : afterFirstL ('L' :: name.text.toList) = some name.text.toList := by
    simp [afterFirstL]
  rw [scan, ← List.cons_append, List.splitOn_append_cons_self_of_not_mem absent]
  simp [found, scan]

theorem letter_passed (kind : Primitive) : kind.letter ≠ ';' ∧ kind.letter ≠ 'L' := by
  cases kind <;> decide

theorem scan_field (type : FieldType) (rest : List Char) :
    scan (type.spell ++ rest) = type.names ++ scan rest := by
  induction type with
  | primitive kind =>
      obtain ⟨noCut, noStart⟩ := letter_passed kind
      exact scan_cons noCut noStart rest
  | object name => simpa [FieldType.spell, FieldType.names] using scan_object name rest
  | array element ih =>
      rw [FieldType.spell, FieldType.names, List.cons_append, scan_cons (by decide) (by decide), ih]

theorem scan_spell (type : FieldType) : scan type.spell = type.names := by
  have whole := scan_field type []
  rwa [List.append_nil, scan_nil, List.append_nil] at whole

theorem scan_fields (types : List FieldType) (rest : List Char) :
    scan (types.flatMap FieldType.spell ++ rest) =
      types.flatMap FieldType.names ++ scan rest := by
  induction types with
  | nil => rfl
  | cons type types ih => simp [scan_field, ih]

theorem scan_result (result : Option FieldType) :
    scan (result.elim ['V'] FieldType.spell) = result.elim [] FieldType.names := by
  cases result with
  | none => exact scan_cons (by decide) (by decide) []
  | some type => exact scan_spell type

theorem classNames_field (type : FieldType) : classNames type.descriptor = type.names := by
  rw [FieldType.descriptor, classNames_ofList, scan_spell]

/-- The scan finds the class names that occur in a descriptor, in their order and as often as
they occur, and nothing else. -/
theorem classNames_are_those_spelled :
    (∀ type : FieldType, classNames type.descriptor = type.names) ∧
      ∀ type : MethodType, classNames type.descriptor = type.names := by
  refine ⟨classNames_field, fun type => ?_⟩
  rw [MethodType.descriptor, classNames_ofList, MethodType.spell, MethodType.names,
    scan_cons (by decide) (by decide), scan_fields, scan_cons (by decide) (by decide), scan_result]

end ClassCoupling.Descriptor
