import ClassCoupling.ClassFile.Builder
import ClassCoupling.Proofs.AscendingSets
import ClassCoupling.Proofs.ByteOrder
import ClassCoupling.Proofs.TypeReferences
import Mathlib.Data.List.DropRight

/-!
The form in which a decoded class lists its references. Whatever a file writes, normalising it
once leaves no slash and no closing semicolon, and normalising it again changes nothing. The
semicolons go first and only slashes are replaced afterwards, so that none comes back
to the end.
-/
namespace ClassCoupling

theorem map_replace_of_notMem {old new : Char} {text : List Char} (absent : old ∉ text) :
    (text.map fun char => if char = old then new else char) = text := by
  refine (List.map_congr_left ?_).trans (List.map_id _)
  intro char inside
  have other : char ≠ old := fun same => absent (same ▸ inside)
  rw [if_neg other, id_eq]

namespace ClassFile

structure InNormalForm (name : String) : Prop where
  filled : name ≠ ""
  noSlash : '/' ∉ name.toList
  notClosed : name.toList.getLast? ≠ some ';'

theorem slash_notMem_dotted (name : String) : '/' ∉ (dotted name).toList := by
  rw [dotted, String.toList_ofList, List.mem_map]
  intro found
  obtain ⟨char, -, same⟩ := found
  by_cases slash : char = '/'
  · simp [slash] at same
  · rw [if_neg slash] at same
    exact slash same

theorem dotted_eq_self {name : String} (noSlash : '/' ∉ name.toList) : dotted name = name := by
  rw [← String.toList_inj, dotted, String.toList_ofList, map_replace_of_notMem noSlash]

theorem getLast?_dotted_ne {name : String} (notClosed : name.toList.getLast? ≠ some ';') :
    (dotted name).toList.getLast? ≠ some ';' := by
  rw [dotted, String.toList_ofList, List.getLast?_map]
  intro closed
  obtain ⟨last, found, same⟩ := Option.map_eq_some_iff.mp closed
  by_cases slash : last = '/'
  · simp [slash] at same
  · rw [if_neg slash] at same
    exact notClosed (same ▸ found)

theorem toList_withoutSemicolons (name : String) :
    (withoutSemicolons name).toList = name.toList.rdropWhile (· = ';') :=
  String.toList_ofList

theorem getLast?_withoutSemicolons_ne (name : String) :
    (withoutSemicolons name).toList.getLast? ≠ some ';' := by
  rw [toList_withoutSemicolons]
  intro closed
  have filled : name.toList.rdropWhile (· = ';') ≠ [] := by
    intro empty
    simp [empty] at closed
  rw [List.getLast?_eq_some_getLast filled, Option.some.injEq] at closed
  exact List.rdropWhile_last_not _ _ filled (by simp [closed])

theorem withoutSemicolons_eq_self {name : String}
    (notClosed : name.toList.getLast? ≠ some ';') : withoutSemicolons name = name := by
  rw [← String.toList_inj, toList_withoutSemicolons, List.rdropWhile_eq_self_iff]
  intro filled closed
  rw [List.getLast?_eq_some_getLast filled] at notClosed
  exact notClosed (congrArg some (of_decide_eq_true closed))

theorem normalize?_inNormalForm {written name : String} (normal : normalize? written = some name) :
    InNormalForm name := by
  rw [normalize?] at normal
  split at normal
  case isTrue => cases normal
  case isFalse filled =>
    obtain rfl := Option.some.inj normal
    exact ⟨filled, slash_notMem_dotted _,
      getLast?_dotted_ne (getLast?_withoutSemicolons_ne written)⟩

theorem normalize?_eq_self_iff {name : String} :
    normalize? name = some name ↔ InNormalForm name := by
  constructor
  · exact normalize?_inNormalForm
  · intro normal
    rw [normalize?, withoutSemicolons_eq_self normal.notClosed, dotted_eq_self normal.noSlash,
      if_neg normal.filled]

end ClassFile

/-- A class as decoding gives it: its name has dots for slashes, and its references are in normal
form, are not the class itself, pass the filter, and ascend in the order of their bytes. -/
structure ClassRecord.InNormalForm (filter : NameFilter) (record : ClassRecord) : Prop where
  noSlash : '/' ∉ record.name.toList
  normal : ∀ reference ∈ record.references.toList, ClassFile.InNormalForm reference
  unchanged : ∀ reference ∈ record.references.toList,
    ClassFile.normalize? reference = some reference
  notItself : ∀ reference ∈ record.references.toList, reference ≠ record.name
  accepted : ∀ reference ∈ record.references.toList, filter.accepts reference = true
  ascending : record.references.toList.Pairwise fun first second =>
    Utf8.encode first < Utf8.encode second
  distinct : record.references.toList.Nodup

theorem ClassFile.Describes.inNormalForm {file : ClassFile} {filter : NameFilter}
    {origin : Option String} {record : ClassRecord}
    (describes : file.Describes filter origin record) : record.InNormalForm filter := by
  have normal : ∀ reference ∈ record.references.toList, InNormalForm reference := by
    intro reference listed
    obtain ⟨⟨written, -, normalised⟩, -⟩ := (describes.references reference).mp listed
    exact normalize?_inNormalForm normalised
  constructor
  case noSlash =>
    obtain ⟨written, -, named⟩ := describes.name
    rw [named]
    exact slash_notMem_dotted written
  case normal => exact normal
  case unchanged =>
    intro reference listed
    exact normalize?_eq_self_iff.mpr (normal reference listed)
  case notItself =>
    intro reference listed
    exact ((describes.references reference).mp listed).2.1
  case accepted =>
    intro reference listed
    exact ((describes.references reference).mp listed).2.2
  case ascending => exact record.references.sorted.imp Utf8.compare_eq_lt_iff.mp
  case distinct => exact nodup_of_ascending record.references.sorted

namespace Decoder

theorem decoded_class_in_normal_form {σ : Type} (decoder : Decoder σ) (bytes : List UInt8)
    (origin : Option String) (state : σ) (record : ClassRecord)
    (decoded : (decoder.decode bytes origin state).1 = .ok record) :
    record.InNormalForm decoder.filter := by
  rw [decode_fst, ClassFile.decode_eq_ok_iff] at decoded
  obtain ⟨file, trailing, -, -, linked, recorded⟩ := decoded
  exact (ClassFile.toRecord_inverts linked recorded).2.inNormalForm

def ragged : List UInt8 :=
  (ClassBuilder.run "a/A" [.superClass "b//B;;", .classReference "/;", .classReference ";;",
    .classReference "c;/", .classReference "a/A;", .field "f" "[[L/;" none]).2.image

theorem decoded_class_in_normal_form_ragged :
    ∃ record : ClassRecord, record.references = .ofList [".", "b..B", "c;."] ∧
      (({} : Decoder Unit).decode ragged none ()).1 = .ok record ∧ record.InNormalForm {} := by
  have decoded : (({} : Decoder Unit).decode ragged none ()).1 =
      .ok { name := "a.A", major := 52, references := .ofList [".", "b..B", "c;."] } := by
    decide +kernel
  exact ⟨_, rfl, decoded, decoded_class_in_normal_form {} ragged none () _ decoded⟩

end Decoder

end ClassCoupling
