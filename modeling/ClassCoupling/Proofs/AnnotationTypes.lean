import ClassCoupling.Proofs.AnnotationGrammar
import Mathlib.Data.List.Basic

/-!
The types that annotations name. Collecting the types of what was read gives the type
indices of the source in the order of its bytes: arrays leave their elements in place, and
an annotation inside an array inside an annotation is walked once.
-/
namespace ClassCoupling.AnnotationSource

open AnnotationTree AnnotationValue

theorem typeIndicesOfAll_eq (values : List AnnotationValue) :
    typeIndicesOfAll values = values.flatMap AnnotationValue.typeIndices := by
  induction values with
  | nil => rw [typeIndicesOfAll, List.flatMap_nil]
  | cons value values ih => rw [typeIndicesOfAll, ih, List.flatMap_cons]

def typesAmong (fields : List Field) : List UInt16 := fields.filterMap Field.typeIndex?

theorem types_flatMap {β : Type} {splicedOf : β → List AnnotationValue}
    {fieldsOf : β → List Field} {items : List β}
    (each : ∀ item ∈ items,
      (splicedOf item).flatMap AnnotationValue.typeIndices = typesAmong (fieldsOf item)) :
    (items.flatMap splicedOf).flatMap AnnotationValue.typeIndices =
      typesAmong (items.flatMap fieldsOf) := by
  rw [List.flatMap_assoc, List.flatMap_congr each, typesAmong, List.filterMap_flatMap]
  rfl

theorem types_splicedValue (value : ElementValue) (depth : Nat) :
    (splicedValue value).flatMap AnnotationValue.typeIndices =
      typesAmong (valueFields depth value) := by
  induction value using value_induction generalizing depth with
  | scalar tag index => rfl
  | enumConstant typeIndex nameIndex => rfl
  | classLiteral typeIndex => rfl
  | nested typeIndex elements ih =>
      have inside : ∀ element ∈ elements,
          (splicedValue element.2).flatMap AnnotationValue.typeIndices =
            typesAmong (elementFields (depth + 1) element) :=
        fun element listed => ih element listed (depth + 1)
      rw [splicedValue, List.flatMap_singleton, AnnotationValue.typeIndices, typeIndicesOfAll_eq,
        splicedElements_eq, types_flatMap inside, valueFields, elementsFields_eq]
      rfl
  | array items ih =>
      rw [splicedValue, splicedItems_eq, types_flatMap fun item listed => ih item listed (depth + 1),
        valueFields, itemsFields_eq]
      rfl

theorem typeIndices_splice (source : AnnotationSource) :
    source.splice.typeIndices = typesAmong source.fields := by
  have inside : ∀ element ∈ source.elements,
      (splicedValue element.2).flatMap AnnotationValue.typeIndices =
        typesAmong (elementFields 0 element) :=
    fun element _ => types_splicedValue element.2 0
  rw [AnnotationTree.typeIndices, splice, typeIndicesOfAll_eq, splicedElements_eq,
    types_flatMap inside]
  rfl

theorem types_splice (sources : List AnnotationSource) :
    (sources.map splice).flatMap AnnotationTree.typeIndices = typesAmong (fieldsOfAll sources) := by
  rw [List.flatMap_map, List.flatMap_congr fun source _ => typeIndices_splice source]
  exact List.filterMap_flatMap.symm

theorem mem_typesAmong_iff {fields : List Field} {index : UInt16} :
    index ∈ typesAmong fields ↔ ∃ role, role.namesType = true ∧ .index role index ∈ fields := by
  rw [typesAmong, List.mem_filterMap]
  constructor
  · rintro ⟨field, listed, names⟩
    cases field with
    | index role place =>
        rw [Field.typeIndex?] at names
        split at names
        case isTrue type => exact ⟨role, type, Option.some.inj names ▸ listed⟩
        case isFalse => cases names
    | _ => cases names
  · rintro ⟨role, type, listed⟩
    exact ⟨.index role index, listed, if_pos type⟩

/-- The types collected from a parsed payload are the type indices among the fields of its
encoding, in their order. An index that is written only as the name of an element or of an enum
constant, or as a scalar, is not collected. -/
theorem parsed_types_in_byte_order (sources : List AnnotationSource) (fit : CountsFit sources)
    (shallow : NestsWithin 128 sources) (rest : List UInt8) :
    ∃ trees, parse (encodeAll sources ++ rest) = .ok trees ∧
      trees.flatMap AnnotationTree.typeIndices =
        (fieldsOfAll sources).filterMap Field.typeIndex? ∧
      ∀ index, (∀ role, .index role index ∈ fieldsOfAll sources → role.namesType = false) →
        index ∉ trees.flatMap AnnotationTree.typeIndices := by
  have read := (readAll_follows fit).reads (nestsWithin_iff.mp shallow) 0 rest
  refine ⟨sources.map splice, Reader.run_eq_ok_iff.mpr ⟨_, read⟩, types_splice sources, ?_⟩
  intro index others collected
  rw [types_splice, mem_typesAmong_iff] at collected
  obtain ⟨role, type, listed⟩ := collected
  rw [others role listed] at type
  cases type

def mixed : List AnnotationSource :=
  [⟨50, [(51, .array [.nested 52 [(53, .classLiteral 54)], .enumConstant 55 56,
    .array [.nested 57 [], .scalar ⟨73, by decide⟩ 58]])]⟩, ⟨50, []⟩]

theorem parsed_types_in_byte_order_mixed :
    CountsFit mixed ∧ NestsWithin 128 mixed ∧
      ∃ trees, parse (encodeAll mixed ++ [1]) = .ok trees ∧
        trees.flatMap AnnotationTree.typeIndices = [50, 52, 54, 55, 57, 50] ∧
        ∀ index ∈ [51, 53, 56, 58], index ∉ trees.flatMap AnnotationTree.typeIndices := by
  have fit : CountsFit mixed := by decide +kernel
  have shallow : NestsWithin 128 mixed := by decide +kernel
  obtain ⟨trees, parsed, types, -⟩ := parsed_types_in_byte_order mixed fit shallow [1]
  have listed : (fieldsOfAll mixed).filterMap Field.typeIndex? = [50, 52, 54, 55, 57, 50] := by
    decide +kernel
  refine ⟨fit, shallow, trees, parsed, types.trans listed, ?_⟩
  rw [types, listed]
  simp

end ClassCoupling.AnnotationSource
