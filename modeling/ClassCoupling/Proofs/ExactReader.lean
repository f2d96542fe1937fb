import ClassCoupling.Cursor
import Mathlib.Data.List.Induction

/-!
Readers against the encodings of what they read. A reader is exact for an
encoding when it accepts the encodings of valid values, whatever follows them,
accepts nothing else, and stops right behind what it accepted. A run of items
behind a count is exact when its items are. An encoding that an exact reader
reads says by itself where it ends.
-/
namespace ClassCoupling

theorem bigEndian_lt (bytes : List UInt8) : bigEndian bytes < Nat.pow 256 bytes.length := by
  induction bytes using List.reverseRecOn with
  | nil => simp [bigEndian]
  | append_singleton bytes byte ih =>
      have small : byte.toNat < 256 := byte.toNat_lt
      have power : Nat.pow 256 (bytes.length + 1) = Nat.pow 256 bytes.length * 256 := rfl
      rw [bigEndian_append, List.length_append, List.length_singleton, power]
      omega

theorem bigEndianBytes_bigEndian (bytes : List UInt8) :
    bigEndianBytes bytes.length (bigEndian bytes) = bytes := by
  induction bytes using List.reverseRecOn with
  | nil => rfl
  | append_singleton bytes byte ih =>
      have small : byte.toNat < 256 := byte.toNat_lt
      have high : (bigEndian bytes * 256 + byte.toNat) / 256 = bigEndian bytes := by omega
      have low : UInt8.ofNat (bigEndian bytes * 256 + byte.toNat) = byte := by
        apply UInt8.toNat_inj.mp
        rw [UInt8.toNat_ofNat']
        omega
      rw [bigEndian_append, List.length_append, List.length_singleton, bigEndianBytes, high, low,
        ih]

theorem except_bind_eq_ok_iff {ε α β : Type} {result : Except ε α} {next : α → Except ε β}
    {value : β} :
    result >>= next = .ok value ↔ ∃ first, result = .ok first ∧ next first = .ok value := by
  cases result <;> simp [bind, Except.bind]

namespace Reader

variable {α β : Type}

theorem bind_eq_ok_iff {item : Reader α} {next : α → Reader β} {cursor after : Cursor} {value : β} :
    (item >>= next) cursor = .ok value after ↔
      ∃ first middle, item cursor = .ok first middle ∧ next first middle = .ok value after := by
  simp only [bind, EStateM.bind]
  cases item cursor with
  | ok first middle => simp [and_assoc]
  | error fault middle => simp

theorem bind_of_ok {item : Reader α} {next : α → Reader β} {cursor middle : Cursor} {first : α}
    (read : item cursor = .ok first middle) : (item >>= next) cursor = next first middle := by
  simp only [bind, EStateM.bind, read]

theorem pure_eq_ok_iff {value result : α} {cursor after : Cursor} :
    (pure value : Reader α) cursor = .ok result after ↔ value = result ∧ cursor = after := by
  simp [pure, EStateM.pure]

theorem throw_ne_ok {fault : Fault} {value : α} {cursor after : Cursor} :
    (throw fault : Reader α) cursor ≠ .ok value after := by
  intro equal
  cases equal

theorem lift_eq_ok_iff {result : Except Fault α} {cursor after : Cursor} {value : α} :
    lift result cursor = .ok value after ↔ result = .ok value ∧ cursor = after := by
  cases result with
  | ok found => simp [lift, pure_eq_ok_iff]
  | error fault => simp [lift, throw_ne_ok]

theorem run_eq_ok_iff {reader : Reader α} {bytes : List UInt8} {value : α} :
    reader.run bytes = .ok value ↔ ∃ after, reader ⟨0, bytes⟩ = .ok value after := by
  unfold run Cursor.ofBytes
  cases reader ⟨0, bytes⟩ <;> simp

/-- A reader that accepts the encodings of valid values and nothing else. -/
structure Exact (item : Reader α) (encode : α → List UInt8) (valid : α → Prop) : Prop where
  accepts : ∀ {value : α}, valid value → ∀ offset rest,
    item ⟨offset, encode value ++ rest⟩ = .ok value ⟨offset + (encode value).length, rest⟩
  inverts : ∀ {offset : Nat} {bytes : List UInt8} {value : α} {after : Cursor},
    item ⟨offset, bytes⟩ = .ok value after → valid value ∧ bytes = encode value ++ after.rest ∧
      after.offset = offset + (encode value).length

section Sequence

variable {item : Reader α} {encode : α → List UInt8} {valid : α → Prop} {next : α → Reader β}

theorem Exact.bind_accepts (exact : Exact item encode valid) {first : α} (validFirst : valid first)
    (offset : Nat) (rest : List UInt8) :
    (item >>= next) ⟨offset, encode first ++ rest⟩ =
      next first ⟨offset + (encode first).length, rest⟩ :=
  bind_of_ok (exact.accepts validFirst offset rest)

theorem Exact.bind_inverts (exact : Exact item encode valid) {offset : Nat} {bytes : List UInt8}
    {value : β} {after : Cursor} (read : (item >>= next) ⟨offset, bytes⟩ = .ok value after) :
    ∃ first rest, valid first ∧ bytes = encode first ++ rest ∧
      next first ⟨offset + (encode first).length, rest⟩ = .ok value after := by
  obtain ⟨first, ⟨middle, rest⟩, taken, following⟩ := bind_eq_ok_iff.mp read
  obtain ⟨validFirst, split, rfl⟩ := exact.inverts taken
  exact ⟨first, rest, validFirst, split, following⟩

theorem lift_bind_accepts {result : Except Fault α} {found : α} (success : result = .ok found)
    (cursor : Cursor) : (lift result >>= next) cursor = next found cursor :=
  bind_of_ok (lift_eq_ok_iff.mpr ⟨success, rfl⟩)

theorem lift_bind_inverts {result : Except Fault α} {cursor after : Cursor} {value : β}
    (read : (lift result >>= next) cursor = .ok value after) :
    ∃ found, result = .ok found ∧ next found cursor = .ok value after := by
  obtain ⟨found, middle, lifted, following⟩ := bind_eq_ok_iff.mp read
  obtain ⟨success, rfl⟩ := lift_eq_ok_iff.mp lifted
  exact ⟨found, success, following⟩

end Sequence

/-- An encoding of which no value's is the beginning of another's. -/
def SelfDelimiting (encode : α → List UInt8) (fits : α → Prop) : Prop :=
  ∀ {first second : α} {rest other : List UInt8}, fits first → fits second →
    encode first ++ rest = encode second ++ other → first = second ∧ rest = other

theorem Exact.selfDelimiting {item : Reader α} {encode : α → List UInt8} {valid : α → Prop}
    (exact : Exact item encode valid) : SelfDelimiting encode valid := by
  intro first second rest other validFirst validSecond same
  have read := exact.accepts validFirst 0 rest
  rw [same, exact.accepts validSecond 0 other] at read
  simp only [EStateM.Result.ok.injEq, Cursor.mk.injEq] at read
  exact ⟨read.1.symm, read.2.2.symm⟩

theorem take_exact (count : Nat) :
    Exact (take count) (fun bytes => bytes) (fun bytes => bytes.length = count) where
  accepts := by
    intro bytes length offset rest
    have enough : count ≤ (Cursor.mk offset (bytes ++ rest)).remaining := by
      simp only [Cursor.remaining, List.length_append]
      omega
    rw [take_of_le enough]
    simp only [← length, List.take_left, List.drop_left]
  inverts := by
    intro offset bytes value after read
    by_cases enough : count ≤ (Cursor.mk offset bytes).remaining
    · rw [take_of_le enough] at read
      simp only [EStateM.Result.ok.injEq] at read
      obtain ⟨rfl, rfl⟩ := read
      have length : (bytes.take count).length = count := List.length_take_of_le enough
      exact ⟨length, (List.take_append_drop count bytes).symm, by rw [length]⟩
    · rw [take_of_lt (Nat.lt_of_not_le enough)] at read
      simp at read

theorem unsigned_exact (width : Nat) :
    Exact (unsigned width) (bigEndianBytes width) (fun value => value < Nat.pow 256 width) where
  accepts := by
    intro value small offset rest
    have length := bigEndianBytes_length width value
    rw [unsigned, (take_exact width).bind_accepts length, pure_eq_ok_iff]
    rw [bigEndian_bigEndianBytes, Nat.mod_eq_of_lt small]
    exact ⟨rfl, rfl⟩
  inverts := by
    intro offset bytes value after read
    obtain ⟨chunk, rest, rfl, rfl, done⟩ := (take_exact width).bind_inverts read
    obtain ⟨rfl, rfl⟩ := pure_eq_ok_iff.mp done
    rw [bigEndianBytes_bigEndian]
    exact ⟨bigEndian_lt chunk, rfl, rfl⟩

theorem Exact.convert {item : Reader α} {encode : α → List UInt8} {valid : α → Prop}
    (exact : Exact item encode valid) (make : α → β) (back : β → α)
    (valid_back : ∀ value, valid (back value)) (make_back : ∀ value, make (back value) = value)
    (back_make : ∀ value, valid value → back (make value) = value) :
    Exact (do return make (← item)) (fun value => encode (back value)) (fun _ => True) where
  accepts := by
    intro value _ offset rest
    rw [exact.bind_accepts (valid_back value), make_back]
    rfl
  inverts := by
    intro offset bytes value after read
    obtain ⟨first, rest, validFirst, rfl, done⟩ := exact.bind_inverts read
    obtain ⟨rfl, rfl⟩ := pure_eq_ok_iff.mp done
    rw [back_make first validFirst]
    exact ⟨trivial, rfl, rfl⟩

theorem u8_exact : Exact u8 (fun byte => [byte]) (fun _ => True) := by
  have encoding : (fun byte : UInt8 => [byte]) = fun byte => bigEndianBytes 1 byte.toNat := by
    funext byte
    simp [bigEndianBytes]
  rw [encoding]
  exact (unsigned_exact 1).convert UInt8.ofNat UInt8.toNat (fun byte => byte.toNat_lt)
    (fun _ => UInt8.ofNat_toNat) (fun _ small => UInt8.toNat_ofNat_of_lt' small)

theorem u16_exact : Exact u16 u16Bytes (fun _ => True) :=
  (unsigned_exact 2).convert UInt16.ofNat UInt16.toNat (fun value => value.toNat_lt)
    (fun _ => UInt16.ofNat_toNat) (fun _ small => UInt16.toNat_ofNat_of_lt' small)

theorem u16Bytes_selfDelimiting : SelfDelimiting u16Bytes (fun _ => True) :=
  u16_exact.selfDelimiting

theorem u32_exact : Exact u32 u32Bytes (fun _ => True) :=
  (unsigned_exact 4).convert UInt32.ofNat UInt32.toNat (fun value => value.toNat_lt)
    (fun _ => UInt32.ofNat_toNat) (fun _ small => UInt32.toNat_ofNat_of_lt' small)

theorem u64_exact : Exact u64 u64Bytes (fun _ => True) :=
  (unsigned_exact 8).convert UInt64.ofNat UInt64.toNat (fun value => value.toNat_lt)
    (fun _ => UInt64.ofNat_toNat) (fun _ small => UInt64.toNat_ofNat_of_lt' small)

theorem i32_exact : Exact i32 (fun value => u32Bytes value.toUInt32) (fun _ => True) :=
  u32_exact.convert UInt32.toInt32 Int32.toUInt32 (fun _ => trivial) (fun _ => rfl) (fun _ _ => rfl)

theorem i64_exact : Exact i64 (fun value => u64Bytes value.toUInt64) (fun _ => True) :=
  u64_exact.convert UInt64.toInt64 Int64.toUInt64 (fun _ => trivial) (fun _ => rfl) (fun _ _ => rfl)

section Runs

variable {item : Reader α} {encode : α → List UInt8} {valid : α → Prop}

theorem manyAfter_accepts (exact : Exact item encode valid) {items : List α}
    (allValid : ∀ value ∈ items, valid value) (found : List α) (offset : Nat)
    (rest : List UInt8) :
    manyAfter item items.length found ⟨offset, items.flatMap encode ++ rest⟩ =
      .ok (found.reverse ++ items) ⟨offset + (items.flatMap encode).length, rest⟩ := by
  -- What was found before is carried along in reverse, so it varies with the items that are left.
  induction items generalizing found offset with
  | nil => simp [manyAfter, pure_eq_ok_iff]
  | cons value items ih =>
      simp only [List.forall_mem_cons] at allValid
      rw [List.length_cons, manyAfter, List.flatMap_cons, List.append_assoc,
        exact.bind_accepts allValid.1, ih allValid.2]
      simp [Nat.add_assoc]

theorem manyAfter_inverts (exact : Exact item encode valid) {count : Nat} {found result : List α}
    {offset : Nat} {bytes : List UInt8} {after : Cursor}
    (read : manyAfter item count found ⟨offset, bytes⟩ = .ok result after) :
    ∃ items, result = found.reverse ++ items ∧ items.length = count ∧
      (∀ value ∈ items, valid value) ∧ bytes = items.flatMap encode ++ after.rest ∧
      after.offset = offset + (items.flatMap encode).length := by
  induction count generalizing found offset bytes with
  | zero =>
      obtain ⟨rfl, rfl⟩ := pure_eq_ok_iff.mp read
      exact ⟨[], by simp⟩
  | succ count ih =>
      obtain ⟨value, rest, validFirst, rfl, others⟩ := exact.bind_inverts read
      obtain ⟨items, rfl, rfl, allValid, rfl, stop⟩ := ih others
      refine ⟨value :: items, by simp, rfl, ?_, by simp, ?_⟩
      · simpa using ⟨validFirst, allValid⟩
      · simp only [stop, List.flatMap_cons, List.length_append]
        omega

def CountFits (valid : α → Prop) (items : List α) : Prop :=
  items.length < 65536 ∧ ∀ value ∈ items, valid value

theorem counted_exact (exact : Exact item encode valid) :
    Exact (counted item) (countedBytes encode) (CountFits valid) where
  accepts := by
    intro items countFits offset rest
    have count : (UInt16.ofNat items.length).toNat = items.length :=
      UInt16.toNat_ofNat_of_lt' countFits.1
    rw [counted, countedBytes, List.append_assoc, u16_exact.bind_accepts trivial, count, many,
      manyAfter_accepts exact countFits.2]
    simp [Nat.add_assoc]
  inverts := by
    intro offset bytes items after read
    obtain ⟨count, tail, -, rfl, others⟩ := u16_exact.bind_inverts read
    obtain ⟨items, rfl, length, allValid, rfl, stop⟩ := manyAfter_inverts exact others
    have encoding : countedBytes encode items = u16Bytes count ++ items.flatMap encode := by
      rw [countedBytes, length, UInt16.ofNat_toNat]
    refine ⟨⟨?_, by simpa using allValid⟩, ?_, ?_⟩
    · have small := count.toNat_lt
      simpa [length] using small
    · simp [encoding]
    · simp [encoding, stop, Nat.add_assoc]

theorem SelfDelimiting.flatMap (delimiting : SelfDelimiting encode valid) {first second : List α}
    {rest other : List UInt8} (validFirst : ∀ value ∈ first, valid value)
    (validSecond : ∀ value ∈ second, valid value) (length : first.length = second.length)
    (same : first.flatMap encode ++ rest = second.flatMap encode ++ other) :
    first = second ∧ rest = other := by
  induction first generalizing second with
  | nil =>
      obtain rfl : second = [] := List.length_eq_zero_iff.mp length.symm
      exact ⟨rfl, same⟩
  | cons value first ih =>
      cases second with
      | nil => simp at length
      | cons next second =>
          simp only [List.forall_mem_cons] at validFirst validSecond
          simp only [List.flatMap_cons, List.append_assoc] at same
          obtain ⟨rfl, tails⟩ := delimiting validFirst.1 validSecond.1 same
          obtain ⟨rfl, rest⟩ := ih validFirst.2 validSecond.2 (by simpa using length) tails
          exact ⟨rfl, rest⟩

theorem SelfDelimiting.counted (delimiting : SelfDelimiting encode valid) :
    SelfDelimiting (countedBytes encode) (CountFits valid) := by
  intro first second rest other countFirst countSecond same
  simp only [countedBytes, List.append_assoc] at same
  obtain ⟨count, items⟩ := u16Bytes_selfDelimiting trivial trivial same
  have length : first.length = second.length := by
    have numbers := congrArg UInt16.toNat count
    rwa [UInt16.toNat_ofNat_of_lt' countFirst.1, UInt16.toNat_ofNat_of_lt' countSecond.1] at numbers
  exact delimiting.flatMap countFirst.2 countSecond.2 length items

end Runs

end Reader

end ClassCoupling
