import ClassCoupling.ClassFile.Builder
import ClassCoupling.Proofs.NormalReferences

/-!
Which references begin with a bracket, as the names of array classes do. Normalising a name
leaves the bracket at its front and puts none there, so the question is what a file
mentions. Descriptors, annotations and array constants have the brackets in front of
their `L` taken off, and only one that stands behind the `L` is left. The names of the
super class and of the interfaces are taken as they are written.
-/
namespace ClassCoupling

theorem dropWhile_eq_cons_iff {α : Type} {drops : α → Bool} {items rest : List α} {first : α} :
    items.dropWhile drops = first :: rest ↔ ∃ front, items = front ++ first :: rest ∧
      (∀ item ∈ front, drops item = true) ∧ drops first = false := by
  constructor
  · intro left
    refine ⟨items.takeWhile drops, ?_, fun _ => List.mem_takeWhile_imp, ?_⟩
    · rw [← left, List.takeWhile_append_dropWhile]
    · have head := List.head?_dropWhile_not drops items
      rw [left] at head
      simpa using head
  · rintro ⟨front, rfl, dropped, kept⟩
    rw [List.dropWhile_append_of_pos dropped, List.dropWhile_cons_of_neg (by simp [kept])]

/-- A name that begins as those of array classes do. -/
def IsBracketed (name : String) : Prop := name.toList.head? = some '['

theorem isBracketed_ofList_iff {name : List Char} :
    IsBracketed (String.ofList name) ↔ ∃ rest, name = '[' :: rest := by
  rw [IsBracketed, String.toList_ofList, List.head?_eq_some_iff]

theorem Pool.Holds.mem_constants {pool : Pool} {index : UInt16} {constant : Constant}
    (holds : pool.Holds index constant) : constant ∈ pool.constants := by
  rw [Pool.constants, List.mem_filterMap]
  exact ⟨some constant, Array.mem_toList_iff.mpr (Array.mem_of_getElem? holds), rfl⟩

namespace Descriptor

/-- A type whose class name begins with a bracket, inside of any number of arrays. -/
def strayType (depth : Nat) (rest : List Char) : String :=
  String.ofList (List.replicate depth '[' ++ 'L' :: '[' :: rest)

section Pieces

variable {mark : Char} {piece text : List Char}

theorem splitOn_isPrefix {others : List (List Char)} (cut : text.splitOn mark = piece :: others) :
    piece <+: text := by
  induction text generalizing piece others with
  | nil =>
      cases cut
      exact List.nil_prefix
  | cons char text ih =>
      by_cases same : char = mark
      · rw [List.splitOn_cons_eq_if_modifyHead, if_pos (beq_iff_eq.mpr same)] at cut
        cases cut
        exact List.nil_prefix
      · obtain ⟨first, rest, found, cuts⟩ := splitOn_cons_of_ne same text
        rw [cuts] at cut
        cases cut
        exact (List.prefix_cons_inj char).mpr (ih found)

theorem isInfix_of_mem_splitOn (listed : piece ∈ text.splitOn mark) : piece <:+: text := by
  induction text generalizing piece with
  | nil => simp_all [List.splitOn_nil]
  | cons char text ih =>
      by_cases same : char = mark
      · rw [List.splitOn_cons_eq_if_modifyHead, if_pos (beq_iff_eq.mpr same),
          List.mem_cons] at listed
        obtain rfl | later := listed
        · exact List.nil_infix
        · exact List.infix_cons (ih later)
      · obtain ⟨first, rest, found, cuts⟩ := splitOn_cons_of_ne same text
        rw [cuts, List.mem_cons] at listed
        obtain rfl | later := listed
        · exact (splitOn_isPrefix cuts).isInfix
        · exact List.infix_cons (ih (found ▸ List.mem_cons_of_mem first later))

end Pieces

theorem afterFirstL_eq_some_iff {piece name : List Char} :
    afterFirstL piece = some name ↔ ∃ front, piece = front ++ 'L' :: name ∧ 'L' ∉ front := by
  have opened : afterFirstL piece = some name ↔
      ∃ first, piece.dropWhile (· ≠ 'L') = first :: name := by
    unfold afterFirstL
    cases piece.dropWhile (· ≠ 'L') <;> simp
  rw [opened]
  simp only [dropWhile_eq_cons_iff, decide_eq_true_eq, decide_eq_false_iff_not, ne_eq, not_not]
  constructor
  · rintro ⟨first, front, split, before, rfl⟩
    exact ⟨front, split, fun inside => before _ inside rfl⟩
  · rintro ⟨front, split, before⟩
    refine ⟨'L', front, split, ?_, rfl⟩
    rintro char inside rfl
    exact before inside

theorem mem_classNames_isBracketed_iff {text name : String} :
    name ∈ classNames text ∧ IsBracketed name ↔ ∃ front rest,
      front ++ 'L' :: '[' :: rest ∈ text.toList.splitOn ';' ∧ 'L' ∉ front ∧
        name = String.ofList ('[' :: rest) := by
  simp only [classNames, List.mem_map, List.mem_filterMap, afterFirstL_eq_some_iff]
  constructor
  · rintro ⟨⟨chars, ⟨piece, cut, front, rfl, before⟩, rfl⟩, bracketed⟩
    obtain ⟨rest, rfl⟩ := isBracketed_ofList_iff.mp bracketed
    exact ⟨front, rest, cut, before, rfl⟩
  · rintro ⟨front, rest, cut, before, rfl⟩
    exact ⟨⟨_, ⟨_, cut, front, rfl, before⟩, rfl⟩, isBracketed_ofList_iff.mpr ⟨rest, rfl⟩⟩

theorem elementClass?_eq_some_iff {text name : String} :
    elementClass? text = some name ↔ name ≠ "" ∧ ∃ depth,
      text = String.ofList (List.replicate depth '[' ++ 'L' :: name.toList) := by
  constructor
  · intro found
    unfold elementClass? at found
    split at found
    case h_1 rest left =>
      split at found
      case isTrue => cases found
      case isFalse filled =>
        obtain rfl := Option.some.inj found
        obtain ⟨front, split, dropped, -⟩ := dropWhile_eq_cons_iff.mp left
        have brackets : front = List.replicate front.length '[' :=
          List.eq_replicate_iff.mpr ⟨rfl, by simpa using dropped⟩
        refine ⟨?_, front.length, ?_⟩
        · simpa using filled
        · rw [String.toList_ofList, ← brackets, ← split, String.ofList_toList]
    case h_2 => cases found
  · rintro ⟨filled, depth, rfl⟩
    have left : (List.replicate depth '[' ++ 'L' :: name.toList).dropWhile (· = '[') =
        'L' :: name.toList := dropWhile_eq_cons_iff.mpr ⟨_, rfl, by simp, by decide⟩
    unfold elementClass?
    rw [String.toList_ofList, left]
    simp [filled]

theorem elementClass?_isBracketed_iff {text name : String} :
    elementClass? text = some name ∧ IsBracketed name ↔ ∃ depth rest,
      text = strayType depth rest ∧ name = String.ofList ('[' :: rest) := by
  rw [elementClass?_eq_some_iff]
  constructor
  · rintro ⟨⟨-, depth, rfl⟩, bracketed⟩
    obtain ⟨rest, chars⟩ := List.head?_eq_some_iff.mp bracketed
    refine ⟨depth, rest, ?_, ?_⟩
    · rw [strayType, chars]
    · rw [← chars, String.ofList_toList]
  · rintro ⟨depth, rest, rfl, rfl⟩
    refine ⟨⟨?_, depth, ?_⟩, isBracketed_ofList_iff.mpr ⟨rest, rfl⟩⟩
    · simp [← String.toList_eq_nil_iff]
    · rw [strayType, String.toList_ofList]

end Descriptor

namespace ClassFile

open Descriptor

theorem isBracketed_dotted_iff {name : String} : IsBracketed (dotted name) ↔ IsBracketed name := by
  rw [IsBracketed, IsBracketed, dotted, String.toList_ofList, List.head?_map,
    Option.map_eq_some_iff]
  constructor
  · rintro ⟨first, found, same⟩
    by_cases slash : first = '/'
    · simp [slash] at same
    · rw [if_neg slash] at same
      rw [found, same]
  · intro found
    exact ⟨'[', found, by decide⟩

theorem isBracketed_withoutSemicolons_iff {name : String} (filled : withoutSemicolons name ≠ "") :
    IsBracketed (withoutSemicolons name) ↔ IsBracketed name := by
  obtain ⟨rest, split⟩ : (withoutSemicolons name).toList <+: name.toList := by
    rw [toList_withoutSemicolons]
    exact List.rdropWhile_prefix _ _
  rw [← String.toList_eq_nil_iff.ne] at filled
  rw [IsBracketed, IsBracketed, ← split, List.head?_append_of_ne_nil _ filled]

theorem isBracketed_normalize_iff {written name : String}
    (normal : normalize? written = some name) : IsBracketed name ↔ IsBracketed written := by
  rw [normalize?] at normal
  split at normal
  case isTrue => cases normal
  case isFalse filled =>
    obtain rfl := Option.some.inj normal
    rw [isBracketed_dotted_iff, isBracketed_withoutSemicolons_iff (mt dotted_eq_empty_iff.mpr filled)]

def HasParent (file : ClassFile) (name : String) : Prop :=
  file.superClass ≠ 0 ∧ file.pool.ClassAt file.superClass name ∨
    ∃ index ∈ file.interfaces, file.pool.ClassAt index name

/-- The mentions that begin with a bracket. A parent may be named as an array; at any other
place the bracket stands behind the `L` of a class type. -/
inductive MentionsBracketed (file : ClassFile) : String → Prop
  | parent {name : String} (named : file.HasParent name) (array : IsBracketed name) :
      MentionsBracketed file name
  | descriptor {member : Member} {text : String} {front rest : List Char}
      (listed : member ∈ file.fields ++ file.methods)
      (found : file.pool.TextAt member.descriptorIndex text)
      (cut : front ++ 'L' :: '[' :: rest ∈ text.toList.splitOn ';') (first : 'L' ∉ front) :
      MentionsBracketed file (String.ofList ('[' :: rest))
  | arrayConstant {nameIndex : UInt16} {depth : Nat} {rest : List Char}
      (listed : .classInfo nameIndex ∈ file.pool.constants)
      (found : file.pool.TextAt nameIndex (strayType (depth + 1) rest)) :
      MentionsBracketed file (String.ofList ('[' :: rest))
  | annotationType {payload : List UInt8} {trees : List AnnotationTree} {tree : AnnotationTree}
      {index : UInt16} {depth : Nat} {rest : List Char} (present : file.AnnotatedBy payload)
      (parsed : AnnotationTree.parse payload = .ok trees) (listed : tree ∈ trees)
      (inside : index ∈ tree.typeIndices) (found : file.pool.TextAt index (strayType depth rest)) :
      MentionsBracketed file (String.ofList ('[' :: rest))

theorem HasParent.mentions {file : ClassFile} {name : String} (named : file.HasParent name) :
    file.Mentions name := by
  obtain ⟨given, found⟩ | ⟨index, listed, found⟩ := named
  · exact .superClass given found
  · exact .interface listed found

theorem isBracketed_strayType_iff {depth : Nat} {rest : List Char} :
    IsBracketed (strayType depth rest) ↔ 0 < depth := by
  cases depth <;> simp [IsBracketed, strayType, List.replicate_succ]

theorem isInfix_strayType {depth : Nat} {rest : List Char} :
    ['L', '['] <:+: (strayType depth rest).toList :=
  ⟨List.replicate depth '[', rest, by simp [strayType]⟩

theorem Mentions.bracketed {file : ClassFile} {name : String} (mentioned : file.Mentions name)
    (bracketed : IsBracketed name) : file.MentionsBracketed name := by
  cases mentioned with
  | superClass given found => exact .parent (.inl ⟨given, found⟩) bracketed
  | interface listed found => exact .parent (.inr ⟨_, listed, found⟩) bracketed
  | descriptor listed found part =>
      obtain ⟨front, rest, cut, before, rfl⟩ :=
        mem_classNames_isBracketed_iff.mp ⟨part, bracketed⟩
      exact .descriptor listed found cut before
  | constant listed found plain => exact absurd bracketed plain
  | arrayConstant listed found array element =>
      obtain ⟨depth, rest, rfl, rfl⟩ := elementClass?_isBracketed_iff.mp ⟨element, bracketed⟩
      obtain ⟨depth, rfl⟩ := Nat.exists_eq_add_one.mpr (isBracketed_strayType_iff.mp array)
      exact .arrayConstant listed found
  | annotationType present parsed listed inside found element =>
      obtain ⟨depth, rest, rfl, rfl⟩ := elementClass?_isBracketed_iff.mp ⟨element, bracketed⟩
      exact .annotationType present parsed listed inside found

theorem MentionsBracketed.mentions {file : ClassFile} {name : String}
    (mentioned : file.MentionsBracketed name) : file.Mentions name ∧ IsBracketed name := by
  cases mentioned with
  | parent named array => exact ⟨named.mentions, array⟩
  | descriptor listed found cut before =>
      obtain ⟨part, bracketed⟩ := mem_classNames_isBracketed_iff.mpr ⟨_, _, cut, before, rfl⟩
      exact ⟨.descriptor listed found part, bracketed⟩
  | @arrayConstant nameIndex depth rest listed found =>
      obtain ⟨element, bracketed⟩ :=
        elementClass?_isBracketed_iff.mpr ⟨depth + 1, rest, rfl, rfl⟩
      have array : IsBracketed (strayType (depth + 1) rest) :=
        isBracketed_strayType_iff.mpr (Nat.succ_pos depth)
      exact ⟨.arrayConstant listed found array element, bracketed⟩
  | annotationType present parsed listed inside found =>
      obtain ⟨element, bracketed⟩ := elementClass?_isBracketed_iff.mpr ⟨_, _, rfl, rfl⟩
      exact ⟨.annotationType present parsed listed inside found element, bracketed⟩

theorem refersTo_isBracketed_iff {file : ClassFile} {reference : String} :
    file.RefersTo reference ∧ IsBracketed reference ↔
      ∃ written, file.MentionsBracketed written ∧ normalize? written = some reference := by
  constructor
  · rintro ⟨⟨written, mentioned, normal⟩, bracketed⟩
    exact ⟨written, mentioned.bracketed ((isBracketed_normalize_iff normal).mp bracketed), normal⟩
  · rintro ⟨written, mentioned, normal⟩
    obtain ⟨mentioned, bracketed⟩ := mentioned.mentions
    exact ⟨⟨written, mentioned, normal⟩, (isBracketed_normalize_iff normal).mpr bracketed⟩

theorem MentionsBracketed.parent_or_stray {file : ClassFile} {name : String}
    (mentioned : file.MentionsBracketed name) : file.HasParent name ∧ IsBracketed name ∨
      ∃ index text, file.pool.TextAt index text ∧ ['L', '['] <:+: text.toList := by
  cases mentioned with
  | parent named array => exact .inl ⟨named, array⟩
  | @descriptor member text front rest listed found cut before =>
      have inside : ['L', '['] <:+: front ++ 'L' :: '[' :: rest := ⟨front, rest, by simp⟩
      exact .inr ⟨_, text, found, inside.trans (isInfix_of_mem_splitOn cut)⟩
  | arrayConstant listed found => exact .inr ⟨_, _, found, isInfix_strayType⟩
  | annotationType present parsed listed inside found =>
      exact .inr ⟨_, _, found, isInfix_strayType⟩

def NamesArray (file : ClassFile) (element : FieldType) : Prop :=
  file.NamesType (.array element) ∨ file.HasParent (FieldType.array element).descriptor

theorem HasParent.exists_constant {file : ClassFile} {name : String}
    (named : file.HasParent name) : ∃ nameIndex, .classInfo nameIndex ∈ file.pool.constants ∧
      file.pool.TextAt nameIndex name := by
  obtain ⟨-, nameIndex, holds, found⟩ | ⟨index, -, nameIndex, holds, found⟩ := named
  · exact ⟨nameIndex, holds.mem_constants, found⟩
  · exact ⟨nameIndex, holds.mem_constants, found⟩

theorem NamesArray.refersTo {file : ClassFile} {element : FieldType} {reference : String}
    (named : file.NamesArray element) (given : element.reference? = some reference) :
    file.RefersTo reference := by
  -- The constant of an array parent is one of the class constants, so the element is referred to.
  obtain named | parent := named
  · exact named.refersTo given
  · obtain ⟨nameIndex, listed, found⟩ := parent.exists_constant
    exact (NamesType.arrayConstant listed found).refersTo given

structure ShowsArrays (file : ClassFile) (filter : NameFilter) (record : ClassRecord) : Prop where
  bracketed_iff : ∀ reference, reference ∈ record.references.toList ∧ IsBracketed reference ↔
    (∃ written, file.MentionsBracketed written ∧ normalize? written = some reference) ∧
      reference ≠ record.name ∧ filter.accepts reference = true
  /-- Where no class name begins with a bracket, the arrays that stay are the parents. -/
  parents_only : (∀ index text, file.pool.TextAt index text → ¬ ['L', '['] <:+: text.toList) →
    ∀ reference, reference ∈ record.references.toList ∧ IsBracketed reference ↔
      (∃ written, file.HasParent written ∧ IsBracketed written ∧
        normalize? written = some reference) ∧
      reference ≠ record.name ∧ filter.accepts reference = true
  element_listed : ∀ element reference, file.NamesArray element →
    element.reference? = some reference → reference ≠ record.name →
      filter.accepts reference = true → reference ∈ record.references.toList

theorem Describes.showsArrays {file : ClassFile} {filter : NameFilter} {origin : Option String}
    {record : ClassRecord} (describes : file.Describes filter origin record) :
    file.ShowsArrays filter record := by
  have bracketed : ∀ reference, reference ∈ record.references.toList ∧ IsBracketed reference ↔
      (∃ written, file.MentionsBracketed written ∧ normalize? written = some reference) ∧
        reference ≠ record.name ∧ filter.accepts reference = true := by
    intro reference
    rw [describes.references, ← refersTo_isBracketed_iff, and_right_comm]
  constructor
  case bracketed_iff => exact bracketed
  case parents_only =>
    intro clean reference
    rw [bracketed reference]
    refine and_congr_left' (exists_congr fun written => ?_)
    rw [← and_assoc]
    refine and_congr_left' ⟨fun mentioned => ?_, fun parent => .parent parent.1 parent.2⟩
    obtain parent | ⟨index, text, found, stray⟩ := mentioned.parent_or_stray
    · exact parent
    · exact absurd stray (clean index text found)
  case element_listed =>
    intro element reference named given other accepted
    exact (describes.references reference).mpr ⟨named.refersTo given, other, accepted⟩

end ClassFile

namespace Decoder

/-- Whatever bytes are decoded, array types leave their element classes; those that stay as
arrays are parents, or come from class names that begin with a bracket. -/
theorem array_parents_stay_arrays {σ : Type} (decoder : Decoder σ) (bytes : List UInt8)
    (origin : Option String) (state : σ) (record : ClassRecord)
    (decoded : (decoder.decode bytes origin state).1 = .ok record) :
    ∃ (file : ClassFile) (trailing : List UInt8), bytes = file.encode ++ trailing ∧
      file.Fits ∧ file.Resolves ∧ file.ShowsArrays decoder.filter record := by
  rw [decode_fst, ClassFile.decode_eq_ok_iff] at decoded
  obtain ⟨file, trailing, split, fits, linked, recorded⟩ := decoded
  obtain ⟨resolves, describes⟩ := ClassFile.toRecord_inverts linked recorded
  exact ⟨file, trailing, split, fits, resolves, describes.showsArrays⟩

def arrayChild : List UInt8 :=
  (ClassBuilder.run "a/A" [.superClass "[Lb/B;", .interface "[[I"]).2.image

theorem decode_arrayChild : (({} : Decoder Unit).decode arrayChild none ()).1 =
    .ok { name := "a.A", major := 52, references := .ofList ["[Lb.B", "[[I", "b.B"] } := by
  decide +kernel

theorem array_parents_are_listed :
    ∃ record, (({} : Decoder Unit).decode arrayChild none ()).1 = .ok record ∧
      record.references.toList = ["[Lb.B", "[[I", "b.B"] ∧
      ∃ reference ∈ record.references.toList, IsBracketed reference := by
  have listed : (Ascending.ofList ["[Lb.B", "[[I", "b.B"]).toList = ["[Lb.B", "[[I", "b.B"] := by
    decide +kernel
  refine ⟨_, decode_arrayChild, listed, "[[I", ?_, ?_⟩
  · rw [listed]
    simp
  · rfl

theorem array_parents_stay_arrays_child :
    ∃ record : ClassRecord, record.references = .ofList ["[Lb.B", "[[I", "b.B"] ∧
      (({} : Decoder Unit).decode arrayChild none ()).1 = .ok record ∧
      ∃ (file : ClassFile) (trailing : List UInt8), arrayChild = file.encode ++ trailing ∧
        file.Fits ∧ file.Resolves ∧ file.ShowsArrays {} record :=
  ⟨_, rfl, decode_arrayChild, array_parents_stay_arrays {} arrayChild none () _ decode_arrayChild⟩

end Decoder

end ClassCoupling
