import ClassCoupling.ClassFile.Annotations

/-!
Annotations as they are written. A source keeps all that reading drops: the names of
elements and of enum constants, and the arrays. Its fields are the tags, indices and
counts of its encoding in the order in which they stand there; each count of values says
how many arrays and annotations lie around it inside the outermost annotation. The
encoding is the bytes of the fields, and what reading keeps of a source is its splicing.
-/
namespace ClassCoupling

/-- A tag that stands before a single index and opens nothing. -/
def ScalarTag : Type :=
  { tag : UInt8 // tag ≠ 'e'.toUInt8 ∧ tag ≠ 'c'.toUInt8 ∧ tag ≠ '@'.toUInt8 ∧ tag ≠ '['.toUInt8 }

inductive ElementValue where
  | scalar (tag : ScalarTag) (index : UInt16)
  | enumConstant (typeIndex nameIndex : UInt16)
  | classLiteral (typeIndex : UInt16)
  | nested (typeIndex : UInt16) (elements : List (UInt16 × ElementValue))
  | array (items : List ElementValue)

structure AnnotationSource where
  typeIndex : UInt16
  elements : List (UInt16 × ElementValue)

namespace AnnotationSource

inductive Role where
  | annotationType | elementName | enumType | enumName | classLiteral | scalar
deriving DecidableEq, Repr

def Role.namesType : Role → Bool
  | annotationType | enumType | classLiteral => true
  | elementName | enumName | scalar => false

inductive Field where
  | tag (byte : UInt8)
  | index (role : Role) (place : UInt16)
  | annotations (size : Nat)
  /-- The number of values in an annotation or an array, and what lies around them. -/
  | values (depth size : Nat)
deriving DecidableEq, Repr

namespace Field

def bytes : Field → List UInt8
  | tag byte => [byte]
  | index _ place => u16Bytes place
  | annotations size | values _ size => u16Bytes (UInt16.ofNat size)

/-- The arrays and annotations around a count of values. -/
def depth : Field → Nat
  | values depth _ => depth
  | _ => 0

def size : Field → Nat
  | annotations size | values _ size => size
  | _ => 0

def typeIndex? : Field → Option UInt16
  | index role place => if role.namesType then some place else none
  | _ => none

def spell (fields : List Field) : List UInt8 := fields.flatMap bytes

theorem spell_append (front back : List Field) :
    spell (front ++ back) = spell front ++ spell back :=
  List.flatMap_append

theorem spell_cons (field : Field) (fields : List Field) :
    spell (field :: fields) = field.bytes ++ spell fields :=
  List.flatMap_cons

end Field

mutual

def valueFields (depth : Nat) : ElementValue → List Field
  | .scalar tag index => [.tag tag.val, .index .scalar index]
  | .enumConstant typeIndex nameIndex =>
      [.tag 'e'.toUInt8, .index .enumType typeIndex, .index .enumName nameIndex]
  | .classLiteral typeIndex => [.tag 'c'.toUInt8, .index .classLiteral typeIndex]
  | .nested typeIndex elements =>
      .tag '@'.toUInt8 :: .index .annotationType typeIndex :: .values (depth + 1) elements.length ::
        elementsFields (depth + 1) elements
  | .array items =>
      .tag '['.toUInt8 :: .values (depth + 1) items.length :: itemsFields (depth + 1) items

def elementsFields (depth : Nat) : List (UInt16 × ElementValue) → List Field
  | [] => []
  | (name, value) :: elements =>
      .index .elementName name :: (valueFields depth value ++ elementsFields depth elements)

def itemsFields (depth : Nat) : List ElementValue → List Field
  | [] => []
  | item :: items => valueFields depth item ++ itemsFields depth items

end

mutual

/-- What a value leaves in the annotation around it: an array leaves its elements. -/
def splicedValue : ElementValue → List AnnotationValue
  | .scalar tag index => [.scalar tag.val index]
  | .enumConstant typeIndex _ => [.enumConstant typeIndex]
  | .classLiteral typeIndex => [.classLiteral typeIndex]
  | .nested typeIndex elements => [.nested typeIndex (splicedElements elements)]
  | .array items => splicedItems items

def splicedElements : List (UInt16 × ElementValue) → List AnnotationValue
  | [] => []
  | (_, value) :: elements => splicedValue value ++ splicedElements elements

def splicedItems : List ElementValue → List AnnotationValue
  | [] => []
  | item :: items => splicedValue item ++ splicedItems items

end

def elementFields (depth : Nat) (element : UInt16 × ElementValue) : List Field :=
  .index .elementName element.1 :: valueFields depth element.2

theorem elementsFields_eq (depth : Nat) (elements : List (UInt16 × ElementValue)) :
    elementsFields depth elements = elements.flatMap (elementFields depth) := by
  induction elements with
  | nil => rw [elementsFields, List.flatMap_nil]
  | cons element elements ih =>
      rw [elementsFields, ih, List.flatMap_cons, elementFields, List.cons_append]

theorem itemsFields_eq (depth : Nat) (items : List ElementValue) :
    itemsFields depth items = items.flatMap (valueFields depth) := by
  induction items with
  | nil => rw [itemsFields, List.flatMap_nil]
  | cons item items ih => rw [itemsFields, ih, List.flatMap_cons]

theorem splicedElements_eq (elements : List (UInt16 × ElementValue)) :
    splicedElements elements = elements.flatMap fun element => splicedValue element.2 := by
  induction elements with
  | nil => rw [splicedElements, List.flatMap_nil]
  | cons element elements ih => rw [splicedElements, ih, List.flatMap_cons]

theorem splicedItems_eq (items : List ElementValue) :
    splicedItems items = items.flatMap splicedValue := by
  induction items with
  | nil => rw [splicedItems, List.flatMap_nil]
  | cons item items ih => rw [splicedItems, ih, List.flatMap_cons]

@[elab_as_elim]
theorem value_induction {motive : ElementValue → Prop}
    (scalar : ∀ tag index, motive (.scalar tag index))
    (enumConstant : ∀ typeIndex nameIndex, motive (.enumConstant typeIndex nameIndex))
    (classLiteral : ∀ typeIndex, motive (.classLiteral typeIndex))
    (nested : ∀ typeIndex elements, (∀ element ∈ elements, motive element.2) →
      motive (.nested typeIndex elements))
    (array : ∀ items, (∀ item ∈ items, motive item) → motive (.array items))
    (value : ElementValue) : motive value :=
  @ElementValue.rec motive (fun elements => ∀ element ∈ elements, motive element.2)
    (fun items => ∀ item ∈ items, motive item) (fun element => motive element.2)
    scalar enumConstant classLiteral nested array (by simp)
    (by simp +contextual) (by simp) (by simp +contextual) (fun _ _ inside => inside) value

def fields (source : AnnotationSource) : List Field :=
  .index .annotationType source.typeIndex :: .values 0 source.elements.length ::
    source.elements.flatMap (elementFields 0)

def fieldsOfAll (sources : List AnnotationSource) : List Field :=
  .annotations sources.length :: sources.flatMap fields

def encodeAll (sources : List AnnotationSource) : List UInt8 := Field.spell (fieldsOfAll sources)

def splice (source : AnnotationSource) : AnnotationTree :=
  ⟨source.typeIndex, splicedElements source.elements⟩

/-- Every count has room in its two bytes. -/
def CountsFit (sources : List AnnotationSource) : Prop :=
  ∀ field ∈ fieldsOfAll sources, field.size < 65536

/-- No value has more than `limit` arrays and annotations around it. -/
def NestsWithin (limit : Nat) (sources : List AnnotationSource) : Prop :=
  ∀ field ∈ fieldsOfAll sources, field.depth ≤ limit

instance (sources : List AnnotationSource) : Decidable (CountsFit sources) :=
  inferInstanceAs (Decidable (∀ field ∈ fieldsOfAll sources, field.size < 65536))

instance (limit : Nat) (sources : List AnnotationSource) : Decidable (NestsWithin limit sources) :=
  inferInstanceAs (Decidable (∀ field ∈ fieldsOfAll sources, field.depth ≤ limit))

def nestedArrays : Nat → ElementValue
  | 0 => .array []
  | levels + 1 => .array [nestedArrays levels]

theorem splicedValue_nestedArrays (levels : Nat) : splicedValue (nestedArrays levels) = [] := by
  induction levels with
  | zero => rfl
  | succ levels ih => simp [nestedArrays, splicedValue, splicedItems, ih]

end AnnotationSource

end ClassCoupling
