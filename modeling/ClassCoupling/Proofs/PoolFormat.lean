import ClassCoupling.ClassFile.Pool
import ClassCoupling.Proofs.ExactReader

/-!
The format of constant pools. The reader of one constant is exact for the
seventeen shapes, and the reader of a pool is exact for the pools whose slots are
those of a list of constants, the pool that declares a count of zero included.
Look-ups are described by what stands in the slots.
-/
namespace ClassCoupling

open Reader

namespace Constant

/-- Text is no longer than its two-byte length can say; the other shapes have a fixed size. -/
def Fits : Constant → Prop
  | utf8 bytes => bytes.length < 65536
  | _ => True

section Fields

variable {α β : Type} {first : Reader α} {second : Reader β} {encodeFirst : α → List UInt8}
  {encodeSecond : β → List UInt8} {offset : Nat} {bytes : List UInt8} {constant : Constant}
  {after : Cursor}

theorem oneField_accepts (exact : Exact first encodeFirst (fun _ => True)) (make : α → Constant)
    (value : α) (offset : Nat) (rest : List UInt8) :
    (do return make (← first) : Reader Constant) ⟨offset, encodeFirst value ++ rest⟩ =
      .ok (make value) ⟨offset + (encodeFirst value).length, rest⟩ :=
  exact.bind_accepts trivial offset rest

theorem oneField_inverts (exact : Exact first encodeFirst (fun _ => True)) {make : α → Constant}
    (read : (do return make (← first) : Reader Constant) ⟨offset, bytes⟩ = .ok constant after) :
    ∃ value, constant = make value ∧ bytes = encodeFirst value ++ after.rest ∧
      after.offset = offset + (encodeFirst value).length := by
  obtain ⟨value, rest, -, rfl, done⟩ := exact.bind_inverts read
  obtain ⟨rfl, rfl⟩ := pure_eq_ok_iff.mp done
  exact ⟨value, rfl, rfl, rfl⟩

theorem twoFields_accepts (exactFirst : Exact first encodeFirst (fun _ => True))
    (exactSecond : Exact second encodeSecond (fun _ => True)) (make : α → β → Constant)
    (value : α) (other : β) (offset : Nat) (rest : List UInt8) :
    (do return make (← first) (← second) : Reader Constant)
        ⟨offset, encodeFirst value ++ encodeSecond other ++ rest⟩ =
      .ok (make value other)
        ⟨offset + (encodeFirst value ++ encodeSecond other).length, rest⟩ := by
  rw [List.append_assoc, exactFirst.bind_accepts trivial, exactSecond.bind_accepts trivial,
    List.length_append, ← Nat.add_assoc]
  rfl

theorem twoFields_inverts (exactFirst : Exact first encodeFirst (fun _ => True))
    (exactSecond : Exact second encodeSecond (fun _ => True)) {make : α → β → Constant}
    (read : (do return make (← first) (← second) : Reader Constant) ⟨offset, bytes⟩ =
      .ok constant after) :
    ∃ value other, constant = make value other ∧
      bytes = encodeFirst value ++ encodeSecond other ++ after.rest ∧
      after.offset = offset + (encodeFirst value ++ encodeSecond other).length := by
  obtain ⟨value, rest, -, rfl, following⟩ := exactFirst.bind_inverts read
  obtain ⟨other, rfl, rfl, stop⟩ := oneField_inverts exactSecond following
  refine ⟨value, other, rfl, (List.append_assoc ..).symm, ?_⟩
  rw [stop, List.length_append, Nat.add_assoc]

end Fields

theorem readPayload_accepts {constant : Constant} (fits : constant.Fits) (index : UInt16)
    (offset : Nat) (rest : List UInt8) :
    readPayload index constant.tag ⟨offset, constant.payload ++ rest⟩ =
      .ok constant ⟨offset + constant.payload.length, rest⟩ := by
  cases constant with
  | utf8 bytes =>
      have length : (UInt16.ofNat bytes.length).toNat = bytes.length :=
        UInt16.toNat_ofNat_of_lt' fits
      simp only [tag, payload, readPayload, List.append_assoc]
      rw [u16_exact.bind_accepts trivial, length, (take_exact bytes.length).bind_accepts rfl,
        List.length_append, ← Nat.add_assoc]
      rfl
  | integer value => exact oneField_accepts i32_exact integer value offset rest
  | float bits => exact oneField_accepts u32_exact float bits offset rest
  | long value => exact oneField_accepts i64_exact long value offset rest
  | double bits => exact oneField_accepts u64_exact double bits offset rest
  | classInfo name => exact oneField_accepts u16_exact classInfo name offset rest
  | string text => exact oneField_accepts u16_exact string text offset rest
  | methodType descriptor => exact oneField_accepts u16_exact methodType descriptor offset rest
  | moduleInfo name => exact oneField_accepts u16_exact moduleInfo name offset rest
  | packageInfo name => exact oneField_accepts u16_exact packageInfo name offset rest
  | fieldRef owner signature =>
      exact twoFields_accepts u16_exact u16_exact fieldRef owner signature offset rest
  | methodRef owner signature =>
      exact twoFields_accepts u16_exact u16_exact methodRef owner signature offset rest
  | interfaceMethodRef owner signature =>
      exact twoFields_accepts u16_exact u16_exact interfaceMethodRef owner signature offset rest
  | nameAndType name descriptor =>
      exact twoFields_accepts u16_exact u16_exact nameAndType name descriptor offset rest
  | methodHandle kind reference =>
      exact twoFields_accepts u8_exact u16_exact methodHandle kind reference offset rest
  | dynamic bootstrap signature =>
      exact twoFields_accepts u16_exact u16_exact dynamic bootstrap signature offset rest
  | invokeDynamic bootstrap signature =>
      exact twoFields_accepts u16_exact u16_exact invokeDynamic bootstrap signature offset rest

theorem readPayload_inverts {index : UInt16} {tag : UInt8} {offset : Nat} {bytes : List UInt8}
    {constant : Constant} {after : Cursor}
    (read : readPayload index tag ⟨offset, bytes⟩ = .ok constant after) :
    constant.tag = tag ∧ constant.Fits ∧ bytes = constant.payload ++ after.rest ∧
      after.offset = offset + constant.payload.length := by
  unfold readPayload at read
  split at read
  case h_1 =>
    obtain ⟨length, tail, -, rfl, following⟩ := u16_exact.bind_inverts read
    obtain ⟨text, rest, size, rfl, done⟩ := (take_exact length.toNat).bind_inverts following
    obtain ⟨rfl, rfl⟩ := pure_eq_ok_iff.mp done
    have small := length.toNat_lt
    have encoding : (utf8 text).payload = u16Bytes length ++ text := by
      rw [payload, size, UInt16.ofNat_toNat]
    rw [encoding, List.length_append]
    exact ⟨rfl, by rw [Fits]; omega, by simp, Nat.add_assoc ..⟩
  case h_2 =>
    obtain ⟨value, rfl, split, stop⟩ := oneField_inverts i32_exact read
    exact ⟨rfl, trivial, split, stop⟩
  case h_3 =>
    obtain ⟨value, rfl, split, stop⟩ := oneField_inverts u32_exact read
    exact ⟨rfl, trivial, split, stop⟩
  case h_4 =>
    obtain ⟨value, rfl, split, stop⟩ := oneField_inverts i64_exact read
    exact ⟨rfl, trivial, split, stop⟩
  case h_5 =>
    obtain ⟨value, rfl, split, stop⟩ := oneField_inverts u64_exact read
    exact ⟨rfl, trivial, split, stop⟩
  case h_6 | h_7 | h_13 | h_16 | h_17 =>
    obtain ⟨value, rfl, split, stop⟩ := oneField_inverts u16_exact read
    exact ⟨rfl, trivial, split, stop⟩
  case h_12 =>
    obtain ⟨value, other, rfl, split, stop⟩ := twoFields_inverts u8_exact u16_exact read
    exact ⟨rfl, trivial, split, stop⟩
  case h_8 | h_9 | h_10 | h_11 | h_14 | h_15 =>
    obtain ⟨value, other, rfl, split, stop⟩ := twoFields_inverts u16_exact u16_exact read
    exact ⟨rfl, trivial, split, stop⟩
  case h_18 => exact absurd read throw_ne_ok

theorem read_exact (index : UInt16) : Exact (read index) encode Fits where
  accepts := by
    intro constant fits offset rest
    have encoding : constant.encode ++ rest = [constant.tag] ++ (constant.payload ++ rest) := rfl
    rw [encoding, read, u8_exact.bind_accepts trivial, readPayload_accepts fits, encode]
    simp only [List.length_cons, List.length_nil, EStateM.Result.ok.injEq, Cursor.mk.injEq,
      and_true, true_and]
    omega
  inverts := by
    intro offset bytes constant after read
    obtain ⟨tag, tail, -, rfl, following⟩ := u8_exact.bind_inverts read
    obtain ⟨rfl, fits, rfl, stop⟩ := readPayload_inverts following
    refine ⟨fits, rfl, ?_⟩
    simp only [stop, encode, List.length_cons, List.length_nil]
    omega

end Constant

namespace Pool

def Laid (pool : Pool) : Prop := pool = empty ∨ ∃ constants, pool = ofConstants constants

structure Fits (pool : Pool) : Prop where
  size : pool.size < 65536
  constants : ∀ constant ∈ pool.constants, constant.Fits

theorem slotsOf_filterMap (constant : Constant) :
    (slotsOf constant).filterMap id = [constant] := by
  unfold slotsOf
  split <;> rfl

theorem constants_ofConstants (constants : List Constant) :
    (ofConstants constants).constants = constants := by
  change (constants.flatMap slotsOf).filterMap id = constants
  induction constants with
  | nil => rfl
  | cons constant constants ih =>
      rw [List.flatMap_cons, List.filterMap_append, slotsOf_filterMap, ih]
      rfl

/-- One round of the loop: a constant fills its slots where there is room for them. -/
theorem readSlots_succ (room : Nat) (slots : Array (Option Constant)) :
    readSlots (room + 1) slots =
      Constant.read (UInt16.ofNat slots.size) >>= fun constant =>
        if constant.width ≤ room + 1 then
          readSlots (room + 1 - constant.width) (slots ++ (slotsOf constant).toArray)
        else throw (.malformedPool (UInt16.ofNat slots.size) constant.tag) := by
  rw [readSlots]
  refine bind_congr fun constant => ?_
  have single : slots ++ #[some constant] = slots.push (some constant) := Array.ext' (by simp)
  have double : slots ++ #[some constant, none] = (slots.push (some constant)).push none :=
    Array.ext' (by simp)
  cases wide : constant.isWide with
  | false => simp [Constant.width, slotsOf, wide, single]
  | true =>
      cases room with
      | zero => simp [Constant.width, wide]
      | succ room => simp [Constant.width, slotsOf, wide, double]

theorem readSlots_of_read {slots : Array (Option Constant)} {cursor middle : Cursor}
    {constant : Constant}
    (first : Constant.read (UInt16.ofNat slots.size) cursor = .ok constant middle) (room : Nat) :
    readSlots (constant.width + room) slots cursor =
      readSlots room (slots ++ (slotsOf constant).toArray) middle := by
  have positive := constant.width_pos
  obtain ⟨rounds, width⟩ : ∃ rounds, constant.width + room = rounds + 1 :=
    ⟨constant.width + room - 1, by omega⟩
  have left : rounds + 1 - constant.width = room := by omega
  rw [width, readSlots_succ, bind_of_ok first, if_pos (by omega), left]

theorem readSlots_succ_cases {room : Nat} {slots result : Array (Option Constant)}
    {cursor after : Cursor} (read : readSlots (room + 1) slots cursor = .ok result after) :
    ∃ constant middle left, Constant.read (UInt16.ofNat slots.size) cursor = .ok constant middle ∧
      room + 1 = constant.width + left ∧
      readSlots left (slots ++ (slotsOf constant).toArray) middle = .ok result after := by
  rw [readSlots_succ] at read
  obtain ⟨constant, middle, first, others⟩ := bind_eq_ok_iff.mp read
  split at others
  case isTrue enough =>
    exact ⟨constant, middle, room + 1 - constant.width, first, by omega, others⟩
  case isFalse short => exact absurd others throw_ne_ok

theorem readSlots_passes {constants : List Constant}
    (fits : ∀ constant ∈ constants, constant.Fits) (room : Nat) (slots : Array (Option Constant))
    (offset : Nat) (rest : List UInt8) :
    readSlots ((constants.flatMap slotsOf).length + room) slots
        ⟨offset, constants.flatMap Constant.encode ++ rest⟩ =
      readSlots room (slots ++ (constants.flatMap slotsOf).toArray)
        ⟨offset + (constants.flatMap Constant.encode).length, rest⟩ := by
  induction constants generalizing slots offset with
  | nil => simp
  | cons constant constants ih =>
      simp only [List.forall_mem_cons] at fits
      have first := (Constant.read_exact (UInt16.ofNat slots.size)).accepts fits.1 offset
        (constants.flatMap Constant.encode ++ rest)
      rw [List.flatMap_cons, List.length_append, slotsOf_length, List.flatMap_cons,
        List.append_assoc, Nat.add_assoc, readSlots_of_read first, ih fits.2]
      simp [Nat.add_assoc]

theorem readSlots_accepts {constants : List Constant}
    (fits : ∀ constant ∈ constants, constant.Fits) (slots : Array (Option Constant)) (offset : Nat)
    (rest : List UInt8) :
    readSlots (constants.flatMap slotsOf).length slots
        ⟨offset, constants.flatMap Constant.encode ++ rest⟩ =
      .ok (slots ++ (constants.flatMap slotsOf).toArray)
        ⟨offset + (constants.flatMap Constant.encode).length, rest⟩ :=
  readSlots_passes fits 0 slots offset rest

theorem readSlots_inverts {room offset : Nat} {slots result : Array (Option Constant)}
    {bytes : List UInt8} {after : Cursor}
    (read : readSlots room slots ⟨offset, bytes⟩ = .ok result after) :
    ∃ constants : List Constant, (∀ constant ∈ constants, constant.Fits) ∧
      (constants.flatMap slotsOf).length = room ∧
      result = slots ++ (constants.flatMap slotsOf).toArray ∧
      bytes = constants.flatMap Constant.encode ++ after.rest ∧
      after.offset = offset + (constants.flatMap Constant.encode).length := by
  -- A round can use up two slots, so the induction is on every smaller room.
  induction room using Nat.strongRecOn generalizing slots offset bytes with
  | ind room ih =>
      cases room with
      | zero =>
          obtain ⟨rfl, rfl⟩ := pure_eq_ok_iff.mp read
          exact ⟨[], by simp⟩
      | succ room =>
          obtain ⟨constant, ⟨middle, tail⟩, left, first, width, others⟩ := readSlots_succ_cases read
          obtain ⟨fits, rfl, rfl⟩ := (Constant.read_exact _).inverts first
          have smaller : left < room + 1 := by
            have positive := constant.width_pos
            omega
          obtain ⟨constants, allFit, rfl, rfl, rfl, stop⟩ := ih left smaller others
          refine ⟨constant :: constants, ?_, ?_, by simp, by simp, ?_⟩
          · simpa using ⟨fits, allFit⟩
          · rw [List.flatMap_cons, List.length_append, slotsOf_length, width]
          · rw [stop, List.flatMap_cons, List.length_append, Nat.add_assoc]

theorem size_ofConstants (constants : List Constant) :
    (ofConstants constants).size = (constants.flatMap slotsOf).length + 1 := by
  rw [Pool.size, ofConstants, List.size_toArray, List.length_cons]

theorem slots_ofConstants (constants : List Constant) :
    (ofConstants constants).slots = #[none] ++ (constants.flatMap slotsOf).toArray :=
  Array.ext' (by simp [ofConstants])

theorem read_exact : Exact read encode (fun pool => pool.Laid ∧ pool.Fits) where
  accepts := by
    rintro pool ⟨laid, fits⟩ offset rest
    have count : (UInt16.ofNat pool.size).toNat = pool.size := UInt16.toNat_ofNat_of_lt' fits.size
    rw [read, encode, List.append_assoc, u16_exact.bind_accepts trivial, count]
    obtain rfl | ⟨constants, rfl⟩ := laid
    · simp [empty, Pool.size, Pool.constants, pure_eq_ok_iff]
    · have each := fits.constants
      rw [constants_ofConstants] at each ⊢
      rw [size_ofConstants]
      simp only
      rw [bind_of_ok (readSlots_accepts each _ _ rest), ← slots_ofConstants, List.length_append,
        ← Nat.add_assoc]
      rfl
  inverts := by
    intro offset bytes pool after read
    obtain ⟨count, tail, -, rfl, others⟩ := u16_exact.bind_inverts read
    have small := count.toNat_lt
    cases number : count.toNat with
    | zero =>
        rw [number] at others
        obtain ⟨rfl, rfl⟩ := pure_eq_ok_iff.mp others
        obtain rfl : count = 0 := UInt16.toNat_inj.mp number
        exact ⟨⟨.inl rfl, by decide, by simp [Pool.constants, empty]⟩, rfl, rfl⟩
    | succ room =>
        rw [number] at others
        obtain ⟨slots, ⟨stop, rest⟩, filled, done⟩ := bind_eq_ok_iff.mp others
        obtain ⟨rfl, rfl⟩ := pure_eq_ok_iff.mp done
        obtain ⟨constants, allFit, rfl, rfl, rfl, rfl⟩ := readSlots_inverts filled
        rw [← slots_ofConstants]
        have size : (ofConstants constants).size = count.toNat := by
          rw [size_ofConstants, number]
        have encoding : (ofConstants constants).encode =
            u16Bytes count ++ constants.flatMap Constant.encode := by
          rw [encode, size, UInt16.ofNat_toNat, constants_ofConstants]
        refine ⟨⟨.inr ⟨constants, rfl⟩, by rw [size]; exact small, ?_⟩, ?_, ?_⟩
        · rwa [constants_ofConstants]
        · simp [encoding]
        · rw [encoding, List.length_append, Nat.add_assoc]

def Holds (pool : Pool) (index : UInt16) (constant : Constant) : Prop :=
  pool.slots[index.toNat]? = some (some constant)

def TextAt (pool : Pool) (index : UInt16) (text : String) : Prop :=
  ∃ bytes, pool.Holds index (.utf8 bytes) ∧ ModifiedUtf8.decode bytes = text

def ClassAt (pool : Pool) (index : UInt16) (name : String) : Prop :=
  ∃ nameIndex, pool.Holds index (.classInfo nameIndex) ∧ pool.TextAt nameIndex name

def NamesText (pool : Pool) (index : UInt16) : Prop := ∃ text, pool.TextAt index text

def NamesClass (pool : Pool) (index : UInt16) : Prop := ∃ name, pool.ClassAt index name

theorem entry_eq_ok_iff {pool : Pool} {index : UInt16} {constant : Constant} :
    pool.entry index = .ok constant ↔ pool.Holds index constant := by
  unfold entry Holds
  split
  case h_1 found slot => simp [slot]
  case h_2 missing =>
    simp only [reduceCtorEq, false_iff]
    exact missing constant

theorem text_eq_ok_iff {pool : Pool} {index : UInt16} {text : String} :
    pool.text index = .ok text ↔ pool.TextAt index text := by
  unfold Pool.text TextAt
  rw [except_bind_eq_ok_iff]
  constructor
  · rintro ⟨constant, found, read⟩
    cases constant with
    | utf8 bytes => exact ⟨bytes, entry_eq_ok_iff.mp found, Except.ok.inj read⟩
    | _ => cases read
  · rintro ⟨bytes, found, rfl⟩
    exact ⟨.utf8 bytes, entry_eq_ok_iff.mpr found, rfl⟩

theorem className_eq_ok_iff {pool : Pool} {index : UInt16} {name : String} :
    pool.className index = .ok name ↔ pool.ClassAt index name := by
  unfold Pool.className ClassAt
  rw [except_bind_eq_ok_iff]
  constructor
  · rintro ⟨constant, found, read⟩
    cases constant with
    | classInfo nameIndex =>
        exact ⟨nameIndex, entry_eq_ok_iff.mp found, text_eq_ok_iff.mp read⟩
    | _ => cases read
  · rintro ⟨nameIndex, found, read⟩
    exact ⟨.classInfo nameIndex, entry_eq_ok_iff.mpr found, text_eq_ok_iff.mpr read⟩

end Pool

end ClassCoupling
