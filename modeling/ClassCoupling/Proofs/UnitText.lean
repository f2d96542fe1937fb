import ClassCoupling.Proofs.PlainText

/-!
Class-file text against the UTF-16 units it was made of. A sequence of units denotes one
text: a character is one unit or two surrogates, and a surrogate that is half of no
character stands for U+FFFD. The bytes of a unit lead back to that unit, whatever follows
them. Bytes of units other than NUL and the surrogates are standard UTF-8; the bytes of
those are not, so one of them anywhere keeps the shortcut from being taken.
-/
namespace ClassCoupling.Utf16

/-- The units of a character: its code point, or two surrogates with ten bits each of what
it lies above the first 65536. -/
def encodeChar (char : Char) : List UInt16 :=
  if char.toNat < 0x10000 then [UInt16.ofNat char.toNat]
  else
    [UInt16.ofNat (0xD800 + (char.toNat - 0x10000) / 0x400),
      UInt16.ofNat (0xDC00 + (char.toNat - 0x10000) % 0x400)]

def encode (text : List Char) : List UInt16 := text.flatMap encodeChar

def isSurrogate (unit : UInt16) : Bool := isHigh unit || isLow unit

def Paired (unit : UInt16) (rest : List UInt16) : Prop :=
  isHigh unit = true ∧ ∃ next ∈ rest.head?, isLow next = true

inductive Denotes : List UInt16 → List Char → Prop
  | nil : Denotes [] []
  | char {units : List UInt16} {text : List Char} (char : Char) (others : Denotes units text) :
      Denotes (encodeChar char ++ units) (char :: text)
  | unpaired {unit : UInt16} {units : List UInt16} {text : List Char}
      (surrogate : isSurrogate unit = true) (alone : ¬ Paired unit units)
      (others : Denotes units text) : Denotes (unit :: units) (Utf8.replacement :: text)

section Ranges

variable {unit high low : UInt16}

theorem isHigh_iff : isHigh unit = true ↔ 0xD800 ≤ unit.toNat ∧ unit.toNat < 0xDC00 := by
  simp [isHigh, UInt16.le_iff_toNat_le, UInt16.lt_iff_toNat_lt]

theorem isLow_iff : isLow unit = true ↔ 0xDC00 ≤ unit.toNat ∧ unit.toNat < 0xE000 := by
  simp [isLow, UInt16.le_iff_toNat_le, UInt16.lt_iff_toNat_lt]

theorem isSurrogate_iff : isSurrogate unit = true ↔ 0xD800 ≤ unit.toNat ∧ unit.toNat < 0xE000 := by
  rw [isSurrogate, Bool.or_eq_true, isHigh_iff, isLow_iff]
  omega

theorem toNat_ofNat {code : Nat} (valid : code.isValidChar) : (Char.ofNat code).toNat = code := by
  rw [Char.ofNat, dif_pos valid]
  rfl

theorem single_of_surrogate (surrogate : isSurrogate unit = true) :
    single unit = Utf8.replacement := by
  rw [single, ← isSurrogate, if_pos surrogate]
  rfl

theorem not_paired_of_plain (plain : ¬ isSurrogate unit = true) (rest : List UInt16) :
    ¬ Paired unit rest := by
  simp only [isSurrogate, Bool.or_eq_true, not_or] at plain
  simp [Paired, plain.1]

theorem toNat_single (plain : ¬ isSurrogate unit = true) : (single unit).toNat = unit.toNat := by
  have small := unit.toNat_lt
  have valid : unit.toNat.isValidChar := by
    rw [isSurrogate_iff] at plain
    simp only [Nat.isValidChar]
    omega
  rw [single, ← isSurrogate, if_neg plain, toNat_ofNat valid]

theorem toNat_pair (isHighUnit : isHigh high = true) (isLowUnit : isLow low = true) :
    (pair high low).toNat = 0x10000 + (high.toNat - 0xD800) * 0x400 + (low.toNat - 0xDC00) := by
  rw [isHigh_iff] at isHighUnit
  rw [isLow_iff] at isLowUnit
  rw [pair, toNat_ofNat]
  simp only [Nat.isValidChar]
  omega

theorem encodeChar_single (plain : ¬ isSurrogate unit = true) :
    encodeChar (single unit) = [unit] := by
  have small := unit.toNat_lt
  rw [encodeChar, toNat_single plain, if_pos small, UInt16.ofNat_toNat]

theorem encodeChar_pair (isHighUnit : isHigh high = true) (isLowUnit : isLow low = true) :
    encodeChar (pair high low) = [high, low] := by
  have code := toNat_pair isHighUnit isLowUnit
  rw [isHigh_iff] at isHighUnit
  rw [isLow_iff] at isLowUnit
  have first : 0xD800 + ((pair high low).toNat - 0x10000) / 0x400 = high.toNat := by omega
  have second : 0xDC00 + ((pair high low).toNat - 0x10000) % 0x400 = low.toNat := by omega
  rw [encodeChar, if_neg (by omega), first, second, UInt16.ofNat_toNat, UInt16.ofNat_toNat]

end Ranges

theorem encodeChar_cases (char : Char) :
    (∃ unit, ¬ isSurrogate unit = true ∧ encodeChar char = [unit] ∧ single unit = char) ∨
      ∃ high low, isHigh high = true ∧ isLow low = true ∧ encodeChar char = [high, low] ∧
        pair high low = char := by
  have valid := char.valid
  simp only [UInt32.isValidChar, Nat.isValidChar] at valid
  change char.toNat < 0xD800 ∨ 0xDFFF < char.toNat ∧ char.toNat < 0x110000 at valid
  unfold encodeChar
  split
  case isTrue small =>
    have value : (UInt16.ofNat char.toNat).toNat = char.toNat := UInt16.toNat_ofNat_of_lt' small
    have plain : ¬ isSurrogate (UInt16.ofNat char.toNat) = true := by
      rw [isSurrogate_iff, value]
      omega
    refine .inl ⟨_, plain, rfl, ?_⟩
    rw [← Char.toNat_inj, toNat_single plain, value]
  case isFalse large =>
    have highValue : (UInt16.ofNat (0xD800 + (char.toNat - 0x10000) / 0x400)).toNat =
        0xD800 + (char.toNat - 0x10000) / 0x400 := by
      rw [UInt16.toNat_ofNat']
      omega
    have lowValue : (UInt16.ofNat (0xDC00 + (char.toNat - 0x10000) % 0x400)).toNat =
        0xDC00 + (char.toNat - 0x10000) % 0x400 := by
      rw [UInt16.toNat_ofNat']
      omega
    have high : isHigh (UInt16.ofNat (0xD800 + (char.toNat - 0x10000) / 0x400)) = true := by
      rw [isHigh_iff, highValue]
      omega
    have low : isLow (UInt16.ofNat (0xDC00 + (char.toNat - 0x10000) % 0x400)) = true := by
      rw [isLow_iff, lowValue]
      omega
    refine .inr ⟨_, _, high, low, rfl, ?_⟩
    rw [← Char.toNat_inj, toNat_pair high low, highValue, lowValue]
    omega

theorem decodeAfter_eq (found : List Char) (units : List UInt16) :
    decodeAfter found units = found.reverse ++ decode units := by
  have moved : ∀ later units, decodeAfter (later ++ found) units =
      found.reverse ++ decodeAfter later units := by
    intro later units
    induction later, units using decodeAfter.induct with
    | case1 later => simp [decodeAfter]
    | case2 later unit => simp [decodeAfter]
    | case3 later high low rest both ih => simpa [decodeAfter, both] using ih
    | case4 later unit next rest alone ih => simpa [decodeAfter, alone] using ih
  exact moved [] units

theorem decode_pair {high low : UInt16} (isHighUnit : isHigh high = true)
    (isLowUnit : isLow low = true) (rest : List UInt16) :
    decode (high :: low :: rest) = pair high low :: decode rest := by
  simp [decode, decodeAfter, isHighUnit, isLowUnit, decodeAfter_eq [pair high low]]

theorem decode_single {unit : UInt16} {rest : List UInt16} (alone : ¬ Paired unit rest) :
    decode (unit :: rest) = single unit :: decode rest := by
  cases rest with
  | nil => rfl
  | cons next rest =>
      have apart : (isHigh unit && isLow next) = false := by
        simpa [Paired] using alone
      simp [decode, decodeAfter, apart, decodeAfter_eq [single unit]]

theorem Denotes.decode_eq {units : List UInt16} {text : List Char} (denotes : Denotes units text) :
    decode units = text := by
  induction denotes with
  | nil => rfl
  | @char units text char _ ih =>
      obtain ⟨unit, plain, spelled, same⟩ | ⟨high, low, isHighUnit, isLowUnit, spelled, same⟩ :=
        encodeChar_cases char
      · rw [spelled, List.singleton_append, decode_single (not_paired_of_plain plain units), ih,
          same]
      · rw [spelled, List.cons_append, List.singleton_append, decode_pair isHighUnit isLowUnit, ih,
          same]
  | unpaired surrogate alone _ ih => rw [decode_single alone, ih, single_of_surrogate surrogate]

theorem denotes_single {unit : UInt16} {units : List UInt16} {text : List Char}
    (alone : ¬ Paired unit units) (others : Denotes units text) :
    Denotes (unit :: units) (single unit :: text) := by
  by_cases surrogate : isSurrogate unit = true
  · rw [single_of_surrogate surrogate]
    exact .unpaired surrogate alone others
  · have whole := Denotes.char (single unit) others
    rwa [encodeChar_single surrogate] at whole

theorem denotes_decode (units : List UInt16) : Denotes units (decode units) := by
  -- The cases are those of the loop; what it has found plays no part.
  have each : ∀ found : List Char, Denotes units (decode units) := by
    intro found
    induction found, units using decodeAfter.induct with
    | case1 => exact .nil
    | case2 found unit =>
        have alone : ¬ Paired unit [] := by simp [Paired]
        rw [decode_single alone]
        exact denotes_single alone .nil
    | case3 found high low rest both ih =>
        rw [Bool.and_eq_true] at both
        have whole := Denotes.char (pair high low) ih
        rw [encodeChar_pair both.1 both.2] at whole
        rwa [decode_pair both.1 both.2]
    | case4 found unit next rest apart ih =>
        have alone : ¬ Paired unit (next :: rest) := by simpa [Paired] using apart
        rw [decode_single alone]
        exact denotes_single alone ih
  exact each []

theorem decode_eq_iff {units : List UInt16} {text : List Char} :
    decode units = text ↔ Denotes units text := by
  constructor
  · rintro rfl
    exact denotes_decode units
  · exact Denotes.decode_eq

theorem denotes_encode (text : List Char) : Denotes (encode text) text := by
  induction text with
  | nil => exact .nil
  | cons char text ih => exact .char char ih

theorem decode_of_plain {units : List UInt16} (plain : ∀ unit ∈ units, ¬ isSurrogate unit = true) :
    decode units = units.map single := by
  induction units with
  | nil => rfl
  | cons unit units ih =>
      simp only [List.forall_mem_cons] at plain
      rw [decode_single (not_paired_of_plain plain.1 units), ih plain.2, List.map_cons]

end ClassCoupling.Utf16

namespace ClassCoupling.ModifiedUtf8

section Units

variable (found : List UInt16) (rest : List UInt8)

theorem unitsAfter_ofOne {unit : UInt16} (small : unit.toNat < 0x80) :
    unitsAfter found (UInt8.ofNat unit.toNat :: rest) = unitsAfter (unit :: found) rest := by
  have lead : ∀ code < 0x80, (UInt8.ofNat code &&& 0x80 == 0) = true ∧
      (UInt8.ofNat code).toNat = code := by
    decide
  obtain ⟨one, value⟩ := lead unit.toNat small
  have same : (UInt8.ofNat unit.toNat).toUInt16 = unit := by
    rw [← UInt16.toNat_inj, UInt8.toNat_toUInt16, value]
  rw [unitsAfter.eq_def]
  simp only [one, ↓reduceIte, same]

theorem unitsAfter_ofTwo {unit : UInt16} (small : unit.toNat < 0x800) :
    unitsAfter found (UInt8.ofNat (0xC0 + unit.toNat / 64) ::
        UInt8.ofNat (0x80 + unit.toNat % 64) :: rest) =
      unitsAfter (unit :: found) rest := by
  have lead : ∀ bits < 32, ¬ (UInt8.ofNat (0xC0 + bits) &&& 0x80 == 0) = true ∧
      (UInt8.ofNat (0xC0 + bits) &&& 0xE0 == 0xC0) = true ∧
      (UInt8.ofNat (0xC0 + bits) &&& 0x1F).toNat = bits := by
    decide
  obtain ⟨notOne, two, bits⟩ := lead (unit.toNat / 64) (by omega)
  have low : unit.toNat % 64 < 64 := by omega
  have sum : unit.toNat / 64 * 64 + unit.toNat % 64 = unit.toNat := by omega
  have value : twoByteUnit (UInt8.ofNat (0xC0 + unit.toNat / 64))
      (UInt8.ofNat (0x80 + unit.toNat % 64)) = unit := by
    rw [twoByteUnit, bits, Nat.add_comm 0x80, Utf8.payload_ofNat low, sum, UInt16.ofNat_toNat]
  rw [unitsAfter.eq_def]
  simp only [notOne, two, Bool.false_eq_true, ↓reduceIte, value]

theorem unitsAfter_ofThree (unit : UInt16) :
    unitsAfter found (UInt8.ofNat (0xE0 + unit.toNat / 4096) ::
        UInt8.ofNat (0x80 + unit.toNat / 64 % 64) :: UInt8.ofNat (0x80 + unit.toNat % 64) :: rest) =
      unitsAfter (unit :: found) rest := by
  have small := unit.toNat_lt
  have lead : ∀ bits < 16, ¬ (UInt8.ofNat (0xE0 + bits) &&& 0x80 == 0) = true ∧
      ¬ (UInt8.ofNat (0xE0 + bits) &&& 0xE0 == 0xC0) = true ∧
      (UInt8.ofNat (0xE0 + bits) &&& 0xF0 == 0xE0) = true ∧
      (UInt8.ofNat (0xE0 + bits) &&& 0x0F).toNat = bits := by
    decide
  obtain ⟨notOne, notTwo, three, bits⟩ := lead (unit.toNat / 4096) (by omega)
  have low : unit.toNat % 64 < 64 := by omega
  have middle : unit.toNat / 64 % 64 < 64 := by omega
  have sum : (unit.toNat / 4096 * 64 + unit.toNat / 64 % 64) * 64 + unit.toNat % 64 =
      unit.toNat := by omega
  have value : threeByteUnit (UInt8.ofNat (0xE0 + unit.toNat / 4096))
      (UInt8.ofNat (0x80 + unit.toNat / 64 % 64)) (UInt8.ofNat (0x80 + unit.toNat % 64)) = unit := by
    rw [threeByteUnit, bits, Nat.add_comm 0x80, Nat.add_comm 0x80, Utf8.payload_ofNat middle,
      Utf8.payload_ofNat low, sum, UInt16.ofNat_toNat]
  rw [unitsAfter.eq_def]
  simp only [notOne, notTwo, three, Bool.false_eq_true, ↓reduceIte, value]

theorem unitsAfter_encodeUnit (unit : UInt16) :
    unitsAfter found (encodeUnit unit ++ rest) = unitsAfter (unit :: found) rest := by
  rw [encodeUnit]
  by_cases one : (decide (0 < unit.toNat) && decide (unit.toNat < 0x80)) = true
  · have small : unit.toNat < 0x80 := by simp at one; omega
    rw [if_pos one]
    exact unitsAfter_ofOne found rest small
  · rw [if_neg one]
    by_cases two : unit.toNat < 0x800
    · rw [if_pos two]
      exact unitsAfter_ofTwo found rest two
    · rw [if_neg two]
      exact unitsAfter_ofThree found rest unit

end Units

theorem units_encode (units : List UInt16) : ModifiedUtf8.units (encode units) = units := by
  have each : ∀ found, unitsAfter found (encode units) = found.reverse ++ units := by
    induction units with
    | nil => simp [encode, unitsAfter]
    | cons unit units ih =>
        intro found
        rw [encode, List.flatMap_cons, unitsAfter_encodeUnit, ← encode, ih]
        simp
  exact each []

/-- A unit whose bytes are those of a character in standard UTF-8. -/
def Plain (unit : UInt16) : Prop := unit ≠ 0 ∧ ¬ Utf16.isSurrogate unit = true

instance (unit : UInt16) : Decidable (Plain unit) := inferInstanceAs (Decidable (_ ∧ _))

theorem encodeUnit_of_plain {unit : UInt16} (plain : Plain unit) :
    encodeUnit unit = String.utf8EncodeChar (Utf16.single unit) := by
  have small := unit.toNat_lt
  have positive : unit.toNat ≠ 0 := fun none => plain.1 (UInt16.toNat_inj.mp none)
  have code : (Utf16.single unit).val.toNat = unit.toNat := Utf16.toNat_single plain.2
  rw [Utf8.utf8EncodeChar_eq, code, encodeUnit, Utf8.following]
  by_cases one : unit.toNat < 0x80
  · have first : unit.toNat ≤ 0x7F := by omega
    simp [positive, Nat.pos_of_ne_zero, one, first, Utf8.bytesOf, Utf8.mark]
  · have notFirst : ¬ unit.toNat ≤ 0x7F := by omega
    by_cases two : unit.toNat < 0x800
    · have second : unit.toNat ≤ 0x7FF := by omega
      simp [one, notFirst, two, second, Utf8.bytesOf, Utf8.mark, Nat.add_comm]
    · have notSecond : ¬ unit.toNat ≤ 0x7FF := by omega
      have third : unit.toNat ≤ 0xFFFF := by omega
      simp [one, notFirst, two, notSecond, third, Utf8.bytesOf, Utf8.mark, Nat.add_comm,
        Nat.div_div_eq_div_mul]

theorem step_of_surrogate {second : UInt8} (outside : Utf8.isSecond 0xED second = false)
    (third : UInt8) (rest : List UInt8) :
    Utf8.step 0xED (second :: third :: rest) = .malformed (second :: third :: rest) := by
  simp [Utf8.step, outside]

theorem step_of_not_plain {unit : UInt16} (foreign : ¬ Plain unit) (rest : List UInt8) :
    ∃ lead tail, encodeUnit unit = lead :: tail ∧
      Utf8.step lead (tail ++ rest) = .malformed (tail ++ rest) := by
  by_cases zero : unit = 0
  · subst zero
    exact ⟨0xC0, [0x80], rfl, rfl⟩
  · have surrogate : Utf16.isSurrogate unit = true := by
      cases found : Utf16.isSurrogate unit with
      | true => rfl
      | false => exact absurd ⟨zero, by simp [found]⟩ foreign
    rw [Utf16.isSurrogate_iff] at surrogate
    have bytes : encodeUnit unit =
        [0xED, UInt8.ofNat (0x80 + unit.toNat / 64 % 64), UInt8.ofNat (0x80 + unit.toNat % 64)] := by
      have lead : unit.toNat / 4096 = 13 := by omega
      have notOne : ¬ unit.toNat < 0x80 := by omega
      have notTwo : ¬ unit.toNat < 0x800 := by omega
      simp [encodeUnit, notOne, notTwo, lead]
    have second : ∀ bits < 64, 32 ≤ bits →
        Utf8.isSecond 0xED (UInt8.ofNat (0x80 + bits)) = false := by
      decide
    have outside := second (unit.toNat / 64 % 64) (by omega) (by omega)
    exact ⟨_, _, bytes, step_of_surrogate outside _ rest⟩

theorem encode_of_plain {units : List UInt16} (plain : ∀ unit ∈ units, Plain unit) :
    encode units = Utf8.encode (String.ofList (units.map Utf16.single)) := by
  rw [Utf8.encode_eq_flatMap, String.toList_ofList, List.flatMap_map, encode]
  induction units with
  | nil => rfl
  | cons unit units ih =>
      simp only [List.forall_mem_cons] at plain
      rw [List.flatMap_cons, List.flatMap_cons, encodeUnit_of_plain plain.1, ih plain.2]

theorem decodeAfter?_of_not_plain {units : List UInt16} (foreign : ∃ unit ∈ units, ¬ Plain unit)
    (found : List Char) : Utf8.decodeAfter? found (encode units) = none := by
  -- One unit that is not plain keeps the bytes of all from being standard UTF-8.
  induction units generalizing found with
  | nil => simp at foreign
  | cons unit units ih =>
      rw [encode, List.flatMap_cons, ← encode]
      by_cases plain : Plain unit
      · obtain ⟨lead, tail, bytes, step⟩ :=
          Utf8.step_utf8EncodeChar (encode units) (Utf16.single unit)
        have later : ∃ unit ∈ units, ¬ Plain unit := by simpa [plain] using foreign
        rw [encodeUnit_of_plain plain, bytes, List.cons_append, Utf8.decodeAfter?_of_scalar step,
          ih later]
      · obtain ⟨lead, tail, bytes, step⟩ := step_of_not_plain plain (encode units)
        rw [bytes, List.cons_append, Utf8.decodeAfter?_of_malformed step]

theorem decode?_encode_eq_none_iff {units : List UInt16} :
    Utf8.decode? (encode units) = none ↔ ∃ unit ∈ units, ¬ Plain unit := by
  constructor
  · intro refused
    apply Decidable.byContradiction
    intro none
    have plain : ∀ unit ∈ units, Plain unit := by
      intro unit listed
      exact Decidable.byContradiction fun foreign => none ⟨unit, listed, foreign⟩
    rw [encode_of_plain plain, Utf8.decode?_encode] at refused
    cases refused
  · intro foreign
    rw [Utf8.decode?, decodeAfter?_of_not_plain foreign, Option.map_none]

theorem denotes_of_decode? {units : List UInt16} {text : String}
    (taken : Utf8.decode? (encode units) = some text) : Utf16.Denotes units text.toList := by
  have plain : ∀ unit ∈ units, Plain unit := by
    intro unit listed
    apply Decidable.byContradiction
    intro foreign
    rw [decode?_encode_eq_none_iff.mpr ⟨unit, listed, foreign⟩] at taken
    cases taken
  rw [encode_of_plain plain, Utf8.decode?_encode, Option.some.injEq] at taken
  rw [← Utf16.decode_eq_iff, Utf16.decode_of_plain fun unit listed => (plain unit listed).2,
    ← taken, String.toList_ofList]

theorem denotes_units (units : List UInt16) :
    Utf16.Denotes units (Utf16.decode (ModifiedUtf8.units (encode units))) := by
  rw [units_encode]
  exact Utf16.denotes_decode units

theorem denotes_decode_encode (units : List UInt16) :
    Utf16.Denotes units (decode (encode units)).toList := by
  rw [decode]
  split
  case h_1 text taken => exact denotes_of_decode? taken
  case h_2 =>
    rw [String.toList_ofList]
    exact denotes_units units

/-- Decoding the bytes of units gives the text that the units denote, and every text comes back
from the bytes of its units. Both ways of reading the bytes agree with this; standard UTF-8 is
what they are exactly where no unit is NUL or a surrogate. -/
theorem decode_restores_text :
    (∀ units text, decode (encode units) = text ↔ Utf16.Denotes units text.toList) ∧
    (∀ text : String, decode (encode (Utf16.encode text.toList)) = text) ∧
    ∀ units,
      Utf16.Denotes units (Utf16.decode (ModifiedUtf8.units (encode units))) ∧
      (∀ text, Utf8.decode? (encode units) = some text → Utf16.Denotes units text.toList) ∧
      (Utf8.decode? (encode units) = none ↔
        ∃ unit ∈ units, unit = 0 ∨ Utf16.isSurrogate unit = true) := by
  have denoted : ∀ units text, decode (encode units) = text ↔ Utf16.Denotes units text.toList := by
    intro units text
    constructor
    · rintro rfl
      exact denotes_decode_encode units
    · intro denotes
      rw [← String.toList_inj, ← (denotes_decode_encode units).decode_eq, denotes.decode_eq]
  refine ⟨denoted, ?_, ?_⟩
  · intro text
    exact (denoted _ text).mpr (Utf16.denotes_encode text.toList)
  · intro units
    refine ⟨denotes_units units, fun text => denotes_of_decode?, ?_⟩
    simp only [decode?_encode_eq_none_iff, Plain, ne_eq, Decidable.not_and_iff_not_or_not,
      Decidable.not_not]

theorem decode_restores_text_mixed :
    decode (encode [0x61, 0, 0xD83D, 0xDE00, 0xD83D, 0x62]) = "a\x00😀\uFFFDb" ∧
      Utf8.decode? (encode [0x61, 0xE9]) = some "aé" ∧
      Utf16.Denotes [0x61, 0xE9] "aé".toList := by
  have mixed : Utf16.Denotes [0x61, 0, 0xD83D, 0xDE00, 0xD83D, 0x62] "a\x00😀\uFFFDb".toList :=
    Utf16.decode_eq_iff.mp (by decide)
  have plain : Plain 0x61 ∧ Plain 0xE9 := by decide
  have taken : Utf8.decode? (encode [0x61, 0xE9]) = some "aé" := by
    rw [encode_of_plain (by simpa using plain), Utf8.decode?_encode]
    decide
  exact ⟨(decode_restores_text.1 _ _).mpr mixed, taken,
    (decode_restores_text.2.2 [0x61, 0xE9]).2.1 "aé" taken⟩

end ClassCoupling.ModifiedUtf8
