import ClassCoupling.Proofs.PoolLayout
import ClassCoupling.Proofs.Truncation

/-!
Where a pool is corrupt. Behind sound constants a slot is left that its bytes cannot
fill: their tag belongs to no kind of constant, or they spell a wide constant, all of it,
and the slot is the last one. That slot and that tag are what reading reports. In every
other failure the bytes end too early, a wide constant that is cut in the last slot
included, because a constant is read before its room is looked at.
-/
namespace ClassCoupling

open Reader

namespace Reader

variable {α β : Type}

def OnlyTruncates (reader : Reader α) : Prop :=
  ∀ cursor fault stop, reader cursor = .error fault stop →
    ∃ place needed, fault = .truncated place needed

namespace OnlyTruncates

theorem pure (value : α) : OnlyTruncates (pure value : Reader α) := by
  intro cursor fault stop failed
  cases failed

theorem take (count : Nat) : OnlyTruncates (take count) := by
  intro cursor fault stop failed
  by_cases enough : count ≤ cursor.remaining
  · rw [take_of_le enough] at failed
    cases failed
  · rw [take_of_lt (Nat.lt_of_not_le enough)] at failed
    cases failed
    exact ⟨cursor.offset, count, rfl⟩

theorem bind {item : Reader α} {next : α → Reader β} (first : OnlyTruncates item)
    (second : ∀ value, OnlyTruncates (next value)) : OnlyTruncates (item >>= next) := by
  intro cursor fault stop failed
  obtain early | ⟨value, middle, -, late⟩ := bind_eq_error_iff.mp failed
  · exact first cursor fault stop early
  · exact second value middle fault stop late

theorem unsigned (width : Nat) : OnlyTruncates (unsigned width) :=
  (take width).bind fun bytes => pure (bigEndian bytes)

theorem u8 : OnlyTruncates u8 := (unsigned 1).bind fun value => pure (UInt8.ofNat value)

theorem u16 : OnlyTruncates u16 := (unsigned 2).bind fun value => pure (UInt16.ofNat value)

theorem u32 : OnlyTruncates u32 := (unsigned 4).bind fun value => pure (UInt32.ofNat value)

theorem u64 : OnlyTruncates u64 := (unsigned 8).bind fun value => pure (UInt64.ofNat value)

theorem i32 : OnlyTruncates i32 := u32.bind fun value => pure value.toInt32

theorem i64 : OnlyTruncates i64 := u64.bind fun value => pure value.toInt64

end OnlyTruncates

end Reader

namespace Constant

def tags : List UInt8 := [1, 3, 4, 5, 6, 7, 8, 9, 10, 11, 12, 15, 16, 17, 18, 19, 20]

theorem readPayload_of_unknown {tag : UInt8} (unknown : tag ∉ tags) (index : UInt16)
    (cursor : Cursor) :
    readPayload index tag cursor = .error (.malformedPool index tag) cursor := by
  unfold readPayload
  split
  case h_18 => rfl
  all_goals simp [tags] at unknown

theorem readPayload_onlyTruncates {tag : UInt8} (known : tag ∈ tags) (index : UInt16) :
    OnlyTruncates (readPayload index tag) := by
  unfold readPayload
  split
  case h_1 =>
    refine OnlyTruncates.u16.bind fun length => ?_
    exact (OnlyTruncates.take length.toNat).bind fun text => .pure (utf8 text)
  case h_2 => exact OnlyTruncates.i32.bind fun value => .pure (integer value)
  case h_3 => exact OnlyTruncates.u32.bind fun bits => .pure (float bits)
  case h_4 => exact OnlyTruncates.i64.bind fun value => .pure (long value)
  case h_5 => exact OnlyTruncates.u64.bind fun bits => .pure (double bits)
  case h_6 | h_7 | h_13 | h_16 | h_17 => exact OnlyTruncates.u16.bind fun _ => .pure _
  case h_12 => exact OnlyTruncates.u8.bind fun _ => OnlyTruncates.u16.bind fun _ => .pure _
  case h_8 | h_9 | h_10 | h_11 | h_14 | h_15 =>
    exact OnlyTruncates.u16.bind fun _ => OnlyTruncates.u16.bind fun _ => .pure _
  case h_18 => simp_all [tags]

theorem read_of_unknown {tag : UInt8} (unknown : tag ∉ tags) (index : UInt16) (offset : Nat)
    (tail : List UInt8) :
    ∃ stop, read index ⟨offset, tag :: tail⟩ = .error (.malformedPool index tag) stop := by
  have tagged : tag :: tail = [tag] ++ tail := rfl
  refine ⟨⟨offset + 1, tail⟩, ?_⟩
  rw [tagged, read, u8_exact.bind_accepts trivial, readPayload_of_unknown unknown]
  rfl

theorem read_error_cases {index : UInt16} {offset : Nat} {bytes : List UInt8} {fault : Fault}
    {stop : Cursor} (failed : read index ⟨offset, bytes⟩ = .error fault stop) :
    (∃ place needed, fault = .truncated place needed) ∨
      ∃ tag tail, bytes = tag :: tail ∧ tag ∉ tags ∧ fault = .malformedPool index tag := by
  obtain short | ⟨tag, ⟨middle, tail⟩, taken, unread⟩ := bind_eq_error_iff.mp failed
  · exact .inl (OnlyTruncates.u8 _ _ _ short)
  · obtain ⟨-, rfl, -⟩ := u8_exact.inverts taken
    by_cases known : tag ∈ tags
    · exact .inl (readPayload_onlyTruncates known index _ _ _ unread)
    · rw [readPayload_of_unknown known] at unread
      cases unread
      exact .inr ⟨tag, tail, rfl, known, rfl⟩

theorem exists_u64Bytes {bytes : List UInt8} (enough : 8 ≤ bytes.length) :
    ∃ value rest, bytes = u64Bytes value ++ rest := by
  have length : (bytes.take 8).length = 8 := by simp [enough]
  have small := bigEndian_lt (bytes.take 8)
  have word := bigEndianBytes_bigEndian (bytes.take 8)
  rw [length] at small word
  have value : (UInt64.ofNat (bigEndian (bytes.take 8))).toNat = bigEndian (bytes.take 8) :=
    UInt64.toNat_ofNat_of_lt' small
  refine ⟨UInt64.ofNat (bigEndian (bytes.take 8)), bytes.drop 8, ?_⟩
  rw [u64Bytes, value, word, List.take_append_drop]

theorem wide_spelled_iff {tag : UInt8} {tail : List UInt8} :
    (∃ (constant : Constant) (rest : List UInt8),
        constant.isWide = true ∧ tag :: tail = constant.encode ++ rest) ↔
      (tag = 5 ∨ tag = 6) ∧ 8 ≤ tail.length := by
  constructor
  · rintro ⟨constant, rest, wide, spelled⟩
    cases constant
    case long value | double bits =>
      obtain ⟨rfl, rfl⟩ := List.cons.inj spelled
      simp [Constant.tag, payload, u64Bytes, bigEndianBytes_length]
    all_goals cases wide
  · rintro ⟨rfl | rfl, enough⟩
    · obtain ⟨value, rest, rfl⟩ := exists_u64Bytes enough
      exact ⟨long value.toInt64, rest, rfl, by simp [encode, Constant.tag, payload]⟩
    · obtain ⟨value, rest, rfl⟩ := exists_u64Bytes enough
      exact ⟨double value, rest, rfl, by simp [encode, Constant.tag, payload]⟩

theorem fits_of_isWide {constant : Constant} (wide : constant.isWide = true) : constant.Fits := by
  cases constant
  case long | double => trivial
  all_goals cases wide

end Constant

namespace Pool

/-- The tag and the bytes behind it cannot stand in a slot: no constant has the tag, or they
hold a wide constant and the slot is the last. -/
def Refused (last : Prop) (tag : UInt8) (tail : List UInt8) : Prop :=
  tag ∉ Constant.tags ∨ last ∧ (tag = 5 ∨ tag = 6) ∧ 8 ≤ tail.length

/-- Bytes with a count and sound constants up to a slot, and then what that slot cannot take. -/
structure CorruptAt (index : UInt16) (tag : UInt8) (count : UInt16) (constants : List Constant)
    (tail bytes : List UInt8) : Prop where
  bytes : bytes = u16Bytes count ++ constants.flatMap Constant.encode ++ tag :: tail
  shapes : ∀ constant ∈ constants, constant.Fits
  slot : index.toNat = 1 + widths constants
  inside : index < count
  refused : Refused (index.toNat + 1 = count.toNat) tag tail

theorem readSlots_refuses {room : Nat} {tag : UInt8} {tail : List UInt8}
    (refused : Refused (room = 0) tag tail) (slots : Array (Option Constant)) (offset : Nat) :
    ∃ stop, readSlots (room + 1) slots ⟨offset, tag :: tail⟩ =
      .error (.malformedPool (UInt16.ofNat slots.size) tag) stop := by
  rw [readSlots_succ]
  obtain unknown | ⟨rfl, spelled⟩ := refused
  · obtain ⟨stop, failed⟩ := Constant.read_of_unknown unknown (UInt16.ofNat slots.size) offset tail
    exact ⟨stop, bind_of_error failed⟩
  · obtain ⟨constant, rest, wide, split⟩ := Constant.wide_spelled_iff.mpr spelled
    have same : tag = constant.tag := (List.cons.inj split).1
    have narrow : ¬ constant.width ≤ 0 + 1 := by simp [Constant.width, wide]
    rw [split, (Constant.read_exact _).bind_accepts (Constant.fits_of_isWide wide), if_neg narrow,
      same]
    exact ⟨_, rfl⟩

theorem readSlots_error_cases {room offset : Nat} {slots : Array (Option Constant)}
    {bytes : List UInt8} {fault : Fault} {stop : Cursor}
    (failed : readSlots (room + 1) slots ⟨offset, bytes⟩ = .error fault stop) :
    (∃ place needed, fault = .truncated place needed) ∨
      (∃ tag tail, bytes = tag :: tail ∧ Refused (room = 0) tag tail ∧
        fault = .malformedPool (UInt16.ofNat slots.size) tag) ∨
      ∃ constant rest left, constant.Fits ∧ bytes = constant.encode ++ rest ∧
        room + 1 = constant.width + left ∧
        readSlots left (slots ++ (slotsOf constant).toArray)
          ⟨offset + constant.encode.length, rest⟩ = .error fault stop := by
  rw [readSlots_succ] at failed
  obtain unread | ⟨constant, ⟨middle, rest⟩, taken, later⟩ := bind_eq_error_iff.mp failed
  · obtain short | ⟨tag, tail, rfl, unknown, rfl⟩ := Constant.read_error_cases unread
    · exact .inl short
    · exact .inr (.inl ⟨tag, tail, rfl, .inl unknown, rfl⟩)
  · obtain ⟨fits, rfl, rfl⟩ := (Constant.read_exact _).inverts taken
    split at later
    case isTrue enough =>
      exact .inr (.inr ⟨constant, rest, room + 1 - constant.width, fits, rfl, by omega, later⟩)
    case isFalse short =>
      cases later
      have wide : constant.isWide = true := by
        by_contra narrow
        simp [Constant.width, narrow] at short
      have last : room = 0 := by
        simp [Constant.width, wide] at short
        omega
      have spelled := Constant.wide_spelled_iff.mp ⟨constant, rest, wide, rfl⟩
      exact .inr (.inl ⟨constant.tag, constant.payload ++ rest, rfl, .inr ⟨last, spelled⟩, rfl⟩)

theorem readSlots_fails {room offset : Nat} {slots : Array (Option Constant)}
    {bytes : List UInt8} {fault : Fault} {stop : Cursor}
    (failed : readSlots room slots ⟨offset, bytes⟩ = .error fault stop) :
    (∃ place needed, fault = .truncated place needed) ∨
      ∃ (constants : List Constant) (left : Nat) (tag : UInt8) (tail : List UInt8),
        (∀ constant ∈ constants, constant.Fits) ∧
        bytes = constants.flatMap Constant.encode ++ tag :: tail ∧
        room = widths constants + (left + 1) ∧ Refused (left = 0) tag tail ∧
        fault = .malformedPool (UInt16.ofNat (slots.size + widths constants)) tag := by
  -- A round can use up two slots, so the induction is on every smaller room.
  induction room using Nat.strongRecOn generalizing slots offset bytes with
  | ind room ih =>
      cases room with
      | zero => cases failed
      | succ room =>
          obtain short | ⟨tag, tail, rfl, refused, rfl⟩ |
            ⟨constant, rest, left, fits, rfl, width, later⟩ := readSlots_error_cases failed
          · exact .inl short
          · exact .inr ⟨[], room, tag, tail, by simp, by simp, by simp [widths], refused, rfl⟩
          · have positive := constant.width_pos
            obtain short | ⟨constants, last, tag, tail, allFit, rfl, rfl, refused, rfl⟩ :=
              ih left (by omega) later
            · exact .inl short
            · refine .inr ⟨constant :: constants, last, tag, tail, ?_, by simp, ?_, refused, ?_⟩
              · simpa using ⟨fits, allFit⟩
              · rw [width, widths, Nat.add_assoc]
              · simp [slotsOf_length, widths, Nat.add_assoc]

theorem CorruptAt.read_eq {index count : UInt16} {tag : UInt8} {constants : List Constant}
    {tail bytes : List UInt8} (corrupt : CorruptAt index tag count constants tail bytes)
    (offset : Nat) :
    ∃ stop, read ⟨offset, bytes⟩ = .error (.malformedPool index tag) stop := by
  have slot := corrupt.slot
  have inside := UInt16.lt_iff_toNat_lt.mp corrupt.inside
  obtain ⟨left, slots⟩ : ∃ left, count.toNat = widths constants + (left + 1) + 1 :=
    ⟨count.toNat - widths constants - 2, by omega⟩
  have refused : Refused (left = 0) tag tail := by
    have last : index.toNat + 1 = count.toNat ↔ left = 0 := by omega
    simpa only [Refused, last] using corrupt.refused
  obtain ⟨stop, failed⟩ := readSlots_refuses refused
    (#[none] ++ (constants.flatMap slotsOf).toArray)
    (offset + (u16Bytes count).length + (constants.flatMap Constant.encode).length)
  have size : (#[none] ++ (constants.flatMap slotsOf).toArray).size = index.toNat := by
    rw [← slots_ofConstants, ← Pool.size, size_ofConstants, length_flatMap_slotsOf, slot,
      Nat.add_comm]
  rw [← readSlots_passes corrupt.shapes, length_flatMap_slotsOf, size, UInt16.ofNat_toNat] at failed
  refine ⟨stop, ?_⟩
  rw [corrupt.bytes, List.append_assoc, read, u16_exact.bind_accepts trivial, slots]
  exact bind_of_error failed

theorem read_fails {offset : Nat} {bytes : List UInt8} {fault : Fault} {stop : Cursor}
    (failed : read ⟨offset, bytes⟩ = .error fault stop) :
    (∃ place needed, fault = .truncated place needed) ∨
      ∃ index tag, fault = .malformedPool index tag ∧
        ∃ count constants tail, CorruptAt index tag count constants tail bytes := by
  obtain short | ⟨count, ⟨middle, rest⟩, taken, unread⟩ := bind_eq_error_iff.mp failed
  · exact .inl (OnlyTruncates.u16 _ _ _ short)
  · obtain ⟨-, rfl, rfl⟩ := u16_exact.inverts taken
    have small := count.toNat_lt
    cases number : count.toNat with
    | zero =>
        rw [number] at unread
        cases unread
    | succ room =>
        rw [number] at unread
        obtain unfilled | ⟨slots, after, -, done⟩ := bind_eq_error_iff.mp unread
        · obtain short | ⟨constants, left, tag, tail, fits, rfl, rfl, refused, rfl⟩ :=
            readSlots_fails unfilled
          · exact .inl short
          · have bound : 1 + widths constants < 65536 := by omega
            have index : (UInt16.ofNat (1 + widths constants)).toNat = 1 + widths constants :=
              UInt16.toNat_ofNat_of_lt' bound
            refine .inr ⟨_, tag, rfl, count, constants, tail, ⟨?_, fits, index, ?_, ?_⟩⟩
            · simp
            · rw [UInt16.lt_iff_toNat_lt]
              simp only [List.size_toArray, List.length_singleton, index]
              omega
            · have last : 1 + widths constants + 1 = count.toNat ↔ left = 0 := by omega
              simpa only [Refused, List.size_toArray, List.length_singleton, index, last]
                using refused
        · cases done

/-- Reading reports a slot and a tag exactly where sound constants lead up to that slot and the
bytes there cannot fill it, and every other failure is for want of bytes. -/
theorem read_reports_corruption (offset : Nat) (bytes : List UInt8) :
    (∀ index tag, (∃ stop, read ⟨offset, bytes⟩ = .error (.malformedPool index tag) stop) ↔
      ∃ count constants tail, CorruptAt index tag count constants tail bytes) ∧
    ∀ fault stop, read ⟨offset, bytes⟩ = .error fault stop →
      (∃ index tag, fault = .malformedPool index tag) ∨
        ∃ place needed, fault = .truncated place needed := by
  refine ⟨fun index tag => ⟨?_, ?_⟩, ?_⟩
  · rintro ⟨stop, failed⟩
    obtain ⟨place, needed, other⟩ | ⟨found, foundTag, same, corrupt⟩ := read_fails failed
    · cases other
    · cases same
      exact corrupt
  · rintro ⟨count, constants, tail, corrupt⟩
    exact corrupt.read_eq offset
  · intro fault stop failed
    obtain short | ⟨index, tag, same, -⟩ := read_fails failed
    · exact .inr short
    · exact .inl ⟨index, tag, same⟩

theorem read_reports_corruption_last_slot :
    CorruptAt 2 5 3 [.integer 1] [0, 0, 0, 0, 0, 0, 0, 7]
        [0, 3, 3, 0, 0, 0, 1, 5, 0, 0, 0, 0, 0, 0, 0, 7] ∧
      (∃ stop, read ⟨8, [0, 3, 3, 0, 0, 0, 1, 5, 0, 0, 0, 0, 0, 0, 0, 7]⟩ =
        .error (.malformedPool 2 5) stop) ∧
      ∃ fault stop, read ⟨8, [0, 3, 3, 0, 0, 0, 1, 5, 0]⟩ = .error fault stop ∧
        ((∃ index tag, fault = .malformedPool index tag) ∨
          ∃ place needed, fault = .truncated place needed) := by
  have corrupt : CorruptAt 2 5 3 [.integer 1] [0, 0, 0, 0, 0, 0, 0, 7]
      [0, 3, 3, 0, 0, 0, 1, 5, 0, 0, 0, 0, 0, 0, 0, 7] :=
    ⟨by decide, by simp [Constant.Fits], by decide, by decide, .inr (by decide)⟩
  have cut : read ⟨8, [0, 3, 3, 0, 0, 0, 1, 5, 0]⟩ = .error (.truncated 16 8) ⟨16, [0]⟩ := by
    rfl
  exact ⟨corrupt, ((read_reports_corruption 8 _).1 2 5).mpr ⟨_, _, _, corrupt⟩, _, _, cut,
    (read_reports_corruption 8 _).2 _ _ cut⟩

end Pool

end ClassCoupling
