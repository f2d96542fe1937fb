import ClassCoupling.Proofs.ClassDecoding
import ClassCoupling.Proofs.DescriptorGrammar
import ClassCoupling.Proofs.PlainText
import Mathlib.Data.List.TakeWhile

/-!
The ways in which a file names a type, and the reference each of them gives. A descriptor of
a member is scanned, an annotation or a class literal has its brackets and its `L` taken off
and keeps the closing `;`, an array constant is read like these, and any other class constant
and the super class are written without an `L`. Normalisation takes the `;` off where it was
kept, so all of them end in the same name: that of the element class with dots.
-/
namespace ClassCoupling

namespace Descriptor

def ClassName.reference? (name : ClassName) : Option String :=
  if name.text = "" then none else some (ClassFile.dotted name.text)

def FieldType.reference? : FieldType → Option String
  | primitive _ => none
  | object name => name.reference?
  | array element => element.reference?

end Descriptor

namespace ClassFile

open Descriptor

theorem dotted_eq_empty_iff {name : String} : dotted name = "" ↔ name = "" := by
  rw [← String.toList_eq_nil_iff, ← String.toList_eq_nil_iff, dotted, String.toList_ofList,
    List.map_eq_nil_iff]

theorem withoutSemicolons_append (name : ClassName) (count : Nat) :
    withoutSemicolons (String.ofList (name.text.toList ++ List.replicate count ';')) =
      name.text := by
  have marks : ∀ char ∈ List.replicate count ';', decide (char = ';') = true := by
    simp
  have kept : name.text.toList.reverse.dropWhile (· = ';') = name.text.toList.reverse := by
    cases reversed : name.text.toList.reverse with
    | nil => rfl
    | cons last others =>
        have inside : last ∈ name.text.toList := by
          rw [← List.mem_reverse, reversed]
          exact List.mem_cons_self
        have other : last ≠ ';' := fun same => name.closed (same ▸ inside)
        simp [other]
  rw [withoutSemicolons, String.toList_ofList, List.reverse_append, List.reverse_replicate,
    List.dropWhile_append_of_pos marks, kept, List.reverse_reverse, String.ofList_toList]

theorem normalize?_append (name : ClassName) (count : Nat) :
    normalize? (String.ofList (name.text.toList ++ List.replicate count ';')) =
      name.reference? := by
  simp only [normalize?, withoutSemicolons_append, dotted_eq_empty_iff, ClassName.reference?]

theorem normalize?_name (name : ClassName) : normalize? name.text = name.reference? := by
  simpa using normalize?_append name 0

theorem normalize?_closed_name (name : ClassName) :
    normalize? (String.ofList (name.text.toList ++ [';'])) = name.reference? :=
  normalize?_append name 1

theorem normalize?_names (type : FieldType) :
    type.names.filterMap normalize? = type.reference?.toList := by
  induction type with
  | primitive kind => rfl
  | object name =>
      rw [FieldType.names, FieldType.reference?, ← normalize?_name]
      cases found : normalize? name.text <;> simp [found]
  | array element ih => exact ih

theorem elementClass?_field (type : FieldType) :
    (elementClass? type.descriptor).bind normalize? = type.reference? := by
  induction type with
  | primitive kind => cases kind <;> rfl
  | object name =>
      have written : elementClass? (FieldType.object name).descriptor =
          some (String.ofList (name.text.toList ++ [';'])) := by
        simp [elementClass?, FieldType.descriptor, FieldType.spell]
      rw [written, Option.bind_some, normalize?_closed_name, FieldType.reference?]
  | array element ih =>
      have within : elementClass? (FieldType.array element).descriptor =
          elementClass? element.descriptor := by
        simp [elementClass?, FieldType.descriptor, FieldType.spell]
      rw [within, ih, FieldType.reference?]

theorem constantName?_array {type : FieldType} (array : type.descriptor.toList.head? = some '[') :
    (constantName? type.descriptor).bind normalize? = type.reference? := by
  rw [constantName?, if_pos array, elementClass?_field]

theorem head?_ne_bracket {name : ClassName} (plain : '[' ∉ name.text.toList) :
    name.text.toList.head? ≠ some '[' := fun first => plain (List.mem_of_mem_head? first)

theorem constantName?_name {name : ClassName} (plain : '[' ∉ name.text.toList) :
    constantName? name.text = some name.text := by
  rw [constantName?, if_neg (head?_ne_bracket plain)]

/-- A type is named somewhere in a file, in one of the ways that the place allows. -/
inductive NamesType (file : ClassFile) : FieldType → Prop
  | descriptor {member : Member} {type : FieldType} (listed : member ∈ file.fields ++ file.methods)
      (found : file.pool.TextAt member.descriptorIndex type.descriptor) : NamesType file type
  | annotation {payload : List UInt8} {trees : List AnnotationTree} {tree : AnnotationTree}
      {index : UInt16} {type : FieldType} (present : file.AnnotatedBy payload)
      (parsed : AnnotationTree.parse payload = .ok trees) (listed : tree ∈ trees)
      (inside : index ∈ tree.typeIndices) (found : file.pool.TextAt index type.descriptor) :
      NamesType file type
  | arrayConstant {nameIndex : UInt16} {element : FieldType}
      (listed : .classInfo nameIndex ∈ file.pool.constants)
      (found : file.pool.TextAt nameIndex (FieldType.array element).descriptor) :
      NamesType file (.array element)
  | constant {nameIndex : UInt16} {name : ClassName}
      (listed : .classInfo nameIndex ∈ file.pool.constants)
      (found : file.pool.TextAt nameIndex name.text) (plain : '[' ∉ name.text.toList) :
      NamesType file (.object name)
  | superClass {name : ClassName} (given : file.superClass ≠ 0)
      (found : file.pool.ClassAt file.superClass name.text) : NamesType file (.object name)

theorem NamesType.refersTo {file : ClassFile} {type : FieldType} {reference : String}
    (named : file.NamesType type) (given : type.reference? = some reference) :
    file.RefersTo reference := by
  cases named with
  | descriptor listed found =>
      have scanned : reference ∈ (classNames type.descriptor).filterMap normalize? := by
        rw [classNames_field, normalize?_names, given]
        simp
      obtain ⟨written, part, normal⟩ := List.mem_filterMap.mp scanned
      exact ⟨written, .descriptor listed found part, normal⟩
  | annotation present parsed listed inside found =>
      rw [← elementClass?_field] at given
      obtain ⟨written, element, normal⟩ := Option.bind_eq_some_iff.mp given
      exact ⟨written, .annotationType present parsed listed inside found element, normal⟩
  | @arrayConstant nameIndex element listed found =>
      rw [← elementClass?_field] at given
      obtain ⟨written, within, normal⟩ := Option.bind_eq_some_iff.mp given
      have array : (FieldType.array element).descriptor.toList.head? = some '[' := by
        simp [FieldType.descriptor, FieldType.spell]
      exact ⟨written, .arrayConstant listed found array within, normal⟩
  | @constant nameIndex name listed found plain =>
      exact ⟨name.text, .constant listed found (head?_ne_bracket plain),
        (normalize?_name name).trans given⟩
  | @superClass name nonzero found =>
      exact ⟨name.text, .superClass nonzero found, (normalize?_name name).trans given⟩

/-- A type gives the same reference whether it is named by the descriptor of a member, by an
annotation or a class literal, by a class constant or as the super class. -/
theorem ways_of_naming_agree :
    (∀ type : FieldType,
      (classNames type.descriptor).filterMap normalize? = type.reference?.toList ∧
      (elementClass? type.descriptor).bind normalize? = type.reference? ∧
      (type.descriptor.toList.head? = some '[' →
        (constantName? type.descriptor).bind normalize? = type.reference?)) ∧
    (∀ name : ClassName, '[' ∉ name.text.toList →
      (constantName? name.text).bind normalize? = (FieldType.object name).reference? ∧
      normalize? name.text = (FieldType.object name).reference?) ∧
    ∀ (file : ClassFile) (type : FieldType) (reference : String), file.NamesType type →
      type.reference? = some reference → file.RefersTo reference := by
  refine ⟨fun type => ⟨?_, elementClass?_field type, constantName?_array⟩, ?_, ?_⟩
  · rw [classNames_field, normalize?_names]
  · intro name plain
    rw [constantName?_name plain, Option.bind_some, normalize?_name, FieldType.reference?]
    exact ⟨rfl, rfl⟩
  · intro file type reference named given
    exact named.refersTo given

def sampleElement : ClassName := ⟨"d/D", by decide⟩

theorem ways_of_naming_agree_sample :
    (constantName? "[Ld/D;").bind normalize? = some "d.D" ∧
      (constantName? "d/D").bind normalize? = some "d.D" ∧
      sample.NamesType (.array (.object sampleElement)) ∧ sample.RefersTo "d.D" := by
  have written : (FieldType.array (.object sampleElement)).descriptor = "[Ld/D;" := by decide
  have given : sampleElement.reference? = some "d.D" := by decide
  have listed : Constant.classInfo 11 ∈ sample.pool.constants := by decide
  have found : sample.pool.TextAt 11 (FieldType.array (.object sampleElement)).descriptor := by
    rw [written]
    exact ⟨Utf8.encode "[Ld/D;", rfl, ModifiedUtf8.decode_encode "[Ld/D;"⟩
  have named := NamesType.arrayConstant listed found
  have array := (ways_of_naming_agree.1 (.array (.object sampleElement))).2.2 (by decide)
  have plain := (ways_of_naming_agree.2.1 sampleElement (by decide)).1
  rw [written, FieldType.reference?, FieldType.reference?, given] at array
  rw [FieldType.reference?, given] at plain
  exact ⟨array, plain, named, ways_of_naming_agree.2.2 _ _ _ named given⟩

end ClassFile

end ClassCoupling
