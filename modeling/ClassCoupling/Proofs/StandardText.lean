import ClassCoupling.Proofs.UnitText

/-!
Standard UTF-8 read with and without the shortcut. A step of the standard decoder takes
exactly the bytes of the character it gives, so well-formed bytes are those that some text is
encoded as. Read unit by unit, the bytes of a character of the first plane give its one unit.
Each of the four bytes of any other character starts no unit, so such a character, and no
other, is lost.
-/
namespace ClassCoupling.Utf8

section Bytes

variable (byte : UInt8)

theorem payload_eq_mod : payload byte = byte.toNat % 64 := by
  rw [payload, UInt8.toNat_and]
  exact Nat.and_two_pow_sub_one_eq_mod byte.toNat 6

theorem lowFive_eq_mod : (byte &&& 0x1F).toNat = byte.toNat % 32 := by
  rw [UInt8.toNat_and]
  exact Nat.and_two_pow_sub_one_eq_mod byte.toNat 5

theorem lowFour_eq_mod : (byte &&& 0x0F).toNat = byte.toNat % 16 := by
  rw [UInt8.toNat_and]
  exact Nat.and_two_pow_sub_one_eq_mod byte.toNat 4

theorem lowThree_eq_mod : (byte &&& 0x07).toNat = byte.toNat % 8 := by
  rw [UInt8.toNat_and]
  exact Nat.and_two_pow_sub_one_eq_mod byte.toNat 3

theorem inRange_iff (low high : UInt8) :
    (low ≤ byte && byte ≤ high) = true ↔ low.toNat ≤ byte.toNat ∧ byte.toNat ≤ high.toNat := by
  simp [UInt8.le_iff_toNat_le]

theorem isContinuation_iff :
    isContinuation byte = true ↔ 0x80 ≤ byte.toNat ∧ byte.toNat < 0xC0 := by
  have each : ∀ value < 256,
      isContinuation (UInt8.ofNat value) = true ↔ 0x80 ≤ value ∧ value < 0xC0 := by
    decide +kernel
  have found := each byte.toNat byte.toNat_lt
  rwa [UInt8.ofNat_toNat] at found

end Bytes

section Seconds

variable {lead second : UInt8}

theorem toNat_secondLow : (secondLow lead).toNat =
    if lead.toNat = 0xE0 then 0xA0 else if lead.toNat = 0xF0 then 0x90 else 0x80 := by
  simp only [secondLow, beq_iff_eq, ← UInt8.toNat_inj, apply_ite UInt8.toNat, UInt8.reduceToNat]

theorem toNat_secondHigh : (secondHigh lead).toNat =
    if lead.toNat = 0xED then 0x9F else if lead.toNat = 0xF4 then 0x8F else 0xBF := by
  simp only [secondHigh, beq_iff_eq, ← UInt8.toNat_inj, apply_ite UInt8.toNat, UInt8.reduceToNat]

theorem bounds_of_isSecond (follows : isSecond lead second = true) :
    0x80 ≤ second.toNat ∧ second.toNat < 0xC0 ∧
      (lead.toNat = 0xE0 → 0xA0 ≤ second.toNat) ∧ (lead.toNat = 0xED → second.toNat < 0xA0) ∧
      (lead.toNat = 0xF0 → 0x90 ≤ second.toNat) ∧ (lead.toNat = 0xF4 → second.toNat < 0x90) := by
  rw [isSecond, inRange_iff, toNat_secondLow, toNat_secondHigh] at follows
  grind

end Seconds

section Lengths

variable {code : Nat}

theorem following_ofOne (most : code < 0x80) : following code = 0 := by
  rw [following, if_pos (by omega)]

theorem following_ofTwo (least : 0x80 ≤ code) (most : code < 0x800) : following code = 1 := by
  rw [following, if_neg (by omega), if_pos (by omega)]

theorem following_ofThree (least : 0x800 ≤ code) (most : code < 0x10000) : following code = 2 := by
  rw [following, if_neg (by omega), if_neg (by omega), if_pos (by omega)]

theorem following_ofFour (least : 0x10000 ≤ code) : following code = 3 := by
  rw [following, if_neg (by omega), if_neg (by omega), if_neg (by omega)]

theorem utf8EncodeChar_ofNat (valid : code.isValidChar) :
    String.utf8EncodeChar (Char.ofNat code) =
      bytesOf (mark (following code)) (following code) code := by
  have same : (Char.ofNat code).val.toNat = code := Utf16.toNat_ofNat valid
  rw [utf8EncodeChar_eq, same]

end Lengths

section Encodings

variable {lead second third fourth : UInt8}

theorem utf8EncodeChar_ofOne (most : lead.toNat < 0x80) :
    String.utf8EncodeChar (Char.ofNat lead.toNat) = [lead] := by
  have valid : lead.toNat.isValidChar := by
    simp only [Nat.isValidChar]
    omega
  rw [utf8EncodeChar_ofNat valid, following_ofOne most, mark, bytesOf, Nat.add_zero,
    UInt8.ofNat_toNat]

theorem utf8EncodeChar_ofTwo (least : 0xC2 ≤ lead.toNat) (most : lead.toNat ≤ 0xDF)
    (follows : isContinuation second = true) :
    String.utf8EncodeChar (Char.ofNat ((lead &&& 0x1F).toNat * 64 + payload second)) =
      [lead, second] := by
  rw [isContinuation_iff] at follows
  rw [lowFive_eq_mod, payload_eq_mod]
  generalize spelled : lead.toNat % 32 * 64 + second.toNat % 64 = code
  have valid : code.isValidChar := by
    simp only [Nat.isValidChar]
    omega
  have first : code / 64 + 0xC0 = lead.toNat := by omega
  have next : code % 64 + 0x80 = second.toNat := by omega
  rw [utf8EncodeChar_ofNat valid, following_ofTwo (by omega) (by omega)]
  change [UInt8.ofNat (code / 64 + 0xC0), UInt8.ofNat (code % 64 + 0x80)] = [lead, second]
  rw [first, next, UInt8.ofNat_toNat, UInt8.ofNat_toNat]

theorem utf8EncodeChar_ofThree (least : 0xE0 ≤ lead.toNat) (most : lead.toNat ≤ 0xEF)
    (follows : isSecond lead second = true) (ends : isContinuation third = true) :
    String.utf8EncodeChar (Char.ofNat
        (((lead &&& 0x0F).toNat * 64 + payload second) * 64 + payload third)) =
      [lead, second, third] := by
  have bounds := bounds_of_isSecond follows
  rw [isContinuation_iff] at ends
  rw [lowFour_eq_mod, payload_eq_mod, payload_eq_mod]
  generalize spelled : (lead.toNat % 16 * 64 + second.toNat % 64) * 64 + third.toNat % 64 = code
  have valid : code.isValidChar := by
    simp only [Nat.isValidChar]
    omega
  have first : code / 64 / 64 + 0xE0 = lead.toNat := by omega
  have next : code / 64 % 64 + 0x80 = second.toNat := by omega
  have last : code % 64 + 0x80 = third.toNat := by omega
  rw [utf8EncodeChar_ofNat valid, following_ofThree (by omega) (by omega)]
  change [UInt8.ofNat (code / 64 / 64 + 0xE0), UInt8.ofNat (code / 64 % 64 + 0x80),
    UInt8.ofNat (code % 64 + 0x80)] = [lead, second, third]
  rw [first, next, last, UInt8.ofNat_toNat, UInt8.ofNat_toNat, UInt8.ofNat_toNat]

theorem utf8EncodeChar_ofFour (least : 0xF0 ≤ lead.toNat) (most : lead.toNat ≤ 0xF4)
    (follows : isSecond lead second = true) (continues : isContinuation third = true)
    (ends : isContinuation fourth = true) :
    String.utf8EncodeChar (Char.ofNat
        ((((lead &&& 0x07).toNat * 64 + payload second) * 64 + payload third) * 64 +
          payload fourth)) =
      [lead, second, third, fourth] := by
  have bounds := bounds_of_isSecond follows
  rw [isContinuation_iff] at continues ends
  rw [lowThree_eq_mod, payload_eq_mod, payload_eq_mod, payload_eq_mod]
  generalize spelled : ((lead.toNat % 8 * 64 + second.toNat % 64) * 64 + third.toNat % 64) * 64 +
    fourth.toNat % 64 = code
  have valid : code.isValidChar := by
    simp only [Nat.isValidChar]
    omega
  have first : code / 64 / 64 / 64 + 0xF0 = lead.toNat := by omega
  have next : code / 64 / 64 % 64 + 0x80 = second.toNat := by omega
  have middle : code / 64 % 64 + 0x80 = third.toNat := by omega
  have last : code % 64 + 0x80 = fourth.toNat := by omega
  rw [utf8EncodeChar_ofNat valid, following_ofFour (by omega)]
  change [UInt8.ofNat (code / 64 / 64 / 64 + 0xF0), UInt8.ofNat (code / 64 / 64 % 64 + 0x80),
    UInt8.ofNat (code / 64 % 64 + 0x80), UInt8.ofNat (code % 64 + 0x80)] =
      [lead, second, third, fourth]
  rw [first, next, middle, last, UInt8.ofNat_toNat, UInt8.ofNat_toNat, UInt8.ofNat_toNat,
    UInt8.ofNat_toNat]

end Encodings

theorem append_of_scalar {char other : Char} {bytes rest after : List UInt8}
    (spelled : String.utf8EncodeChar char = bytes)
    (taken : Step.scalar char rest = .scalar other after) :
    bytes ++ rest = String.utf8EncodeChar other ++ after := by
  rw [Step.scalar.injEq] at taken
  obtain ⟨rfl, rfl⟩ := taken
  rw [spelled]

theorem eq_append_of_step {lead : UInt8} {rest after : List UInt8} {char : Char}
    (taken : step lead rest = .scalar char after) :
    lead :: rest = String.utf8EncodeChar char ++ after := by
  -- The cases are those of the step; each length that is accepted has its own lemma.
  rw [step.eq_def] at taken
  split at taken
  case isTrue one =>
    have spelled := utf8EncodeChar_ofOne (UInt8.lt_iff_toNat_lt.mp one)
    exact (append_of_scalar spelled taken :)
  split at taken
  case isTrue two =>
    obtain ⟨least, most⟩ := (inRange_iff ..).mp two
    split at taken
    case h_2 => cases taken
    split at taken
    case isFalse => cases taken
    case isTrue follows =>
      have spelled := utf8EncodeChar_ofTwo least most follows
      exact (append_of_scalar spelled taken :)
  split at taken
  case isTrue three =>
    obtain ⟨least, most⟩ := (inRange_iff ..).mp three
    split at taken
    case h_2 => split at taken <;> cases taken
    case h_3 => cases taken
    split at taken
    case isTrue => cases taken
    case isFalse follows =>
      split at taken
      case isFalse => cases taken
      case isTrue ends =>
        have spelled := utf8EncodeChar_ofThree least most (by simpa using follows) ends
        exact (append_of_scalar spelled taken :)
  split at taken
  case isTrue four =>
    obtain ⟨least, most⟩ := (inRange_iff ..).mp four
    split at taken
    case h_2 => grind
    case h_3 => split at taken <;> cases taken
    case h_4 => cases taken
    split at taken
    case isTrue => cases taken
    case isFalse follows =>
      split at taken
      case isTrue => cases taken
      case isFalse continues =>
        split at taken
        case isFalse => cases taken
        case isTrue ends =>
          have spelled := utf8EncodeChar_ofFour least most (by simpa using follows)
            (by simpa using continues) ends
          exact (append_of_scalar spelled taken :)
  case isFalse => cases taken

theorem eq_of_decodeAfter? {found text : List Char} {bytes : List UInt8}
    (decoded : decodeAfter? found bytes = some text) :
    ∃ later, text = found.reverse ++ later ∧ bytes = later.flatMap String.utf8EncodeChar := by
  induction found, bytes using decodeAfter?.induct with
  | case1 found =>
      rw [decodeAfter?, Option.some.injEq] at decoded
      exact ⟨[], by simp [decoded], rfl⟩
  | case2 found lead rest char after taken ih =>
      rw [decodeAfter?_of_scalar taken] at decoded
      obtain ⟨later, whole, bytes⟩ := ih decoded
      refine ⟨char :: later, by simp [whole], ?_⟩
      rw [eq_append_of_step taken, List.flatMap_cons, bytes]
  | case3 found lead rest after taken =>
      rw [decodeAfter?_of_malformed taken] at decoded
      cases decoded

theorem decode?_eq_some_iff {bytes : List UInt8} {text : String} :
    decode? bytes = some text ↔ bytes = encode text := by
  constructor
  · intro decoded
    rw [decode?, Option.map_eq_some_iff] at decoded
    obtain ⟨chars, decoded, rfl⟩ := decoded
    obtain ⟨later, whole, bytes⟩ := eq_of_decodeAfter? decoded
    rw [encode_eq_flatMap, String.toList_ofList, whole, bytes]
    rfl
  · rintro rfl
    exact decode?_encode text

end ClassCoupling.Utf8

namespace ClassCoupling.ModifiedUtf8

section Leads

variable (lead : UInt8)

theorem startsOne_iff : (lead &&& 0x80 == 0) = true ↔ lead.toNat < 0x80 := by
  have each : ∀ value < 256, (UInt8.ofNat value &&& 0x80 == 0) = true ↔ value < 0x80 := by
    decide +kernel
  have found := each lead.toNat lead.toNat_lt
  rwa [UInt8.ofNat_toNat] at found

theorem startsTwo_iff :
    (lead &&& 0xE0 == 0xC0) = true ↔ 0xC0 ≤ lead.toNat ∧ lead.toNat < 0xE0 := by
  have each : ∀ value < 256,
      (UInt8.ofNat value &&& 0xE0 == 0xC0) = true ↔ 0xC0 ≤ value ∧ value < 0xE0 := by
    decide +kernel
  have found := each lead.toNat lead.toNat_lt
  rwa [UInt8.ofNat_toNat] at found

theorem startsThree_iff :
    (lead &&& 0xF0 == 0xE0) = true ↔ 0xE0 ≤ lead.toNat ∧ lead.toNat < 0xF0 := by
  have each : ∀ value < 256,
      (UInt8.ofNat value &&& 0xF0 == 0xE0) = true ↔ 0xE0 ≤ value ∧ value < 0xF0 := by
    decide +kernel
  have found := each lead.toNat lead.toNat_lt
  rwa [UInt8.ofNat_toNat] at found

end Leads

/-- A byte that starts no unit: one of those that stand behind a first byte, a first byte of
four, or a first byte that is followed by too few bytes. -/
def StartsNone (lead : UInt8) (rest : List UInt8) : Prop :=
  0x80 ≤ lead.toNat ∧ lead.toNat < 0xC0 ∨ 0xC0 ≤ lead.toNat ∧ lead.toNat < 0xE0 ∧ rest = [] ∨
    0xE0 ≤ lead.toNat ∧ lead.toNat < 0xF0 ∧ rest.length < 2 ∨ 0xF0 ≤ lead.toNat

section Loop

variable {lead : UInt8} (found : List UInt16)

theorem unitsAfter_one (most : lead.toNat < 0x80) (rest : List UInt8) :
    unitsAfter found (lead :: rest) = unitsAfter (lead.toUInt16 :: found) rest := by
  rw [unitsAfter.eq_def]
  exact if_pos ((startsOne_iff lead).mpr most)

theorem unitsAfter_two (least : 0xC0 ≤ lead.toNat) (most : lead.toNat < 0xE0) (second : UInt8)
    (rest : List UInt8) :
    unitsAfter found (lead :: second :: rest) =
      unitsAfter (twoByteUnit lead second :: found) rest := by
  have notOne := mt (startsOne_iff lead).mp (by omega)
  have two := (startsTwo_iff lead).mpr ⟨least, most⟩
  rw [unitsAfter.eq_def]
  simp only [notOne, two, Bool.false_eq_true, ↓reduceIte]

theorem unitsAfter_three (least : 0xE0 ≤ lead.toNat) (most : lead.toNat < 0xF0)
    (second third : UInt8) (rest : List UInt8) :
    unitsAfter found (lead :: second :: third :: rest) =
      unitsAfter (threeByteUnit lead second third :: found) rest := by
  have notOne := mt (startsOne_iff lead).mp (by omega)
  have notTwo := mt (startsTwo_iff lead).mp (by omega)
  have three := (startsThree_iff lead).mpr ⟨least, most⟩
  rw [unitsAfter.eq_def]
  simp only [notOne, notTwo, three, Bool.false_eq_true, ↓reduceIte]

theorem unitsAfter_none {rest : List UInt8} (none : StartsNone lead rest) :
    unitsAfter found (lead :: rest) = unitsAfter (replacementUnit :: found) rest := by
  obtain ⟨least, most⟩ | ⟨least, most, empty⟩ | ⟨least, most, short⟩ | least := none
  · have notOne := mt (startsOne_iff lead).mp (by omega)
    have notTwo := mt (startsTwo_iff lead).mp (by omega)
    have notThree := mt (startsThree_iff lead).mp (by omega)
    rw [unitsAfter.eq_def]
    simp only [notOne, notTwo, notThree, Bool.false_eq_true, ↓reduceIte]
  · have notOne := mt (startsOne_iff lead).mp (by omega)
    have two := (startsTwo_iff lead).mpr ⟨least, most⟩
    rw [empty, unitsAfter.eq_def]
    simp only [notOne, two, Bool.false_eq_true, ↓reduceIte]
  · have notOne := mt (startsOne_iff lead).mp (by omega)
    have notTwo := mt (startsTwo_iff lead).mp (by omega)
    have three := (startsThree_iff lead).mpr ⟨least, most⟩
    rw [unitsAfter.eq_def]
    cases rest with
    | nil => simp only [notOne, notTwo, three, Bool.false_eq_true, ↓reduceIte]
    | cons second rest =>
        obtain rfl : rest = [] := by
          simp only [List.length_cons] at short
          exact List.length_eq_zero_iff.mp (by omega)
        simp only [notOne, notTwo, three, Bool.false_eq_true, ↓reduceIte]
  · have notOne := mt (startsOne_iff lead).mp (by omega)
    have notTwo := mt (startsTwo_iff lead).mp (by omega)
    have notThree := mt (startsThree_iff lead).mp (by omega)
    rw [unitsAfter.eq_def]
    simp only [notOne, notTwo, notThree, Bool.false_eq_true, ↓reduceIte]

end Loop

@[elab_as_elim]
theorem unit_induction {motive : List UInt8 → Prop} (bytes : List UInt8) (nil : motive [])
    (one : ∀ lead rest, lead.toNat < 0x80 → motive rest → motive (lead :: rest))
    (two : ∀ lead second rest, 0xC0 ≤ lead.toNat → lead.toNat < 0xE0 → motive rest →
      motive (lead :: second :: rest))
    (three : ∀ lead second third rest, 0xE0 ≤ lead.toNat → lead.toNat < 0xF0 → motive rest →
      motive (lead :: second :: third :: rest))
    (none : ∀ lead rest, StartsNone lead rest → motive rest → motive (lead :: rest)) :
    motive bytes := by
  have each : ∀ found : List UInt16, motive bytes := by
    intro found
    induction found, bytes using unitsAfter.induct with
    | case1 => exact nil
    | case2 found lead rest first ih => exact one lead rest ((startsOne_iff lead).mp first) ih
    | case3 found lead notOne first second rest ih =>
        obtain ⟨least, most⟩ := (startsTwo_iff lead).mp first
        exact two lead second rest least most ih
    | case4 found lead notOne first ih =>
        obtain ⟨least, most⟩ := (startsTwo_iff lead).mp first
        exact none lead [] (.inr (.inl ⟨least, most, rfl⟩)) ih
    | case5 found lead notOne notTwo first second third rest ih =>
        obtain ⟨least, most⟩ := (startsThree_iff lead).mp first
        exact three lead second third rest least most ih
    | case6 found lead notOne notTwo first second ih =>
        obtain ⟨least, most⟩ := (startsThree_iff lead).mp first
        exact none lead [second] (.inr (.inr (.inl ⟨least, most, by simp⟩))) ih
    | case7 found lead notOne notTwo first ih =>
        obtain ⟨least, most⟩ := (startsThree_iff lead).mp first
        exact none lead [] (.inr (.inr (.inl ⟨least, most, by simp⟩))) ih
    | case8 found lead rest notOne notTwo notThree ih =>
        rw [startsOne_iff] at notOne
        rw [startsTwo_iff] at notTwo
        rw [startsThree_iff] at notThree
        exact none lead rest (by unfold StartsNone; omega) ih
  exact each []

section Units

variable {lead : UInt8}

theorem unitsAfter_eq (found : List UInt16) (bytes : List UInt8) :
    unitsAfter found bytes = found.reverse ++ units bytes := by
  have moved : ∀ later, unitsAfter (later ++ found) bytes =
      found.reverse ++ unitsAfter later bytes := by
    induction bytes using unit_induction with
    | nil => simp [unitsAfter]
    | one lead rest most ih =>
        intro later
        rw [unitsAfter_one _ most, unitsAfter_one _ most, ← List.cons_append, ih]
    | two lead second rest least most ih =>
        intro later
        rw [unitsAfter_two _ least most, unitsAfter_two _ least most, ← List.cons_append, ih]
    | three lead second third rest least most ih =>
        intro later
        rw [unitsAfter_three _ least most, unitsAfter_three _ least most, ← List.cons_append, ih]
    | none lead rest none ih =>
        intro later
        rw [unitsAfter_none _ none, unitsAfter_none _ none, ← List.cons_append, ih]
  exact moved []

theorem units_one (most : lead.toNat < 0x80) (rest : List UInt8) :
    units (lead :: rest) = lead.toUInt16 :: units rest := by
  rw [units, unitsAfter_one [] most, unitsAfter_eq]
  rfl

theorem units_two (least : 0xC0 ≤ lead.toNat) (most : lead.toNat < 0xE0) (second : UInt8)
    (rest : List UInt8) :
    units (lead :: second :: rest) = twoByteUnit lead second :: units rest := by
  rw [units, unitsAfter_two [] least most, unitsAfter_eq]
  rfl

theorem units_three (least : 0xE0 ≤ lead.toNat) (most : lead.toNat < 0xF0) (second third : UInt8)
    (rest : List UInt8) :
    units (lead :: second :: third :: rest) = threeByteUnit lead second third :: units rest := by
  rw [units, unitsAfter_three [] least most, unitsAfter_eq]
  rfl

theorem units_none {rest : List UInt8} (none : StartsNone lead rest) :
    units (lead :: rest) = replacementUnit :: units rest := by
  rw [units, unitsAfter_none [] none, unitsAfter_eq]
  rfl

theorem units_encodeUnit (unit : UInt16) (rest : List UInt8) :
    units (encodeUnit unit ++ rest) = unit :: units rest := by
  rw [units, unitsAfter_encodeUnit, unitsAfter_eq]
  rfl

end Units

/-- What bytes are read as when it is not asked whether they are standard UTF-8. -/
def byUnits (bytes : List UInt8) : String := String.ofList (Utf16.decode (units bytes))

theorem decode_of_refused {bytes : List UInt8} (refused : Utf8.decode? bytes = none) :
    decode bytes = byUnits bytes := by
  rw [decode, refused]
  rfl

theorem decode_of_accepted {bytes : List UInt8} {text : String}
    (accepted : Utf8.decode? bytes = some text) : decode bytes = text := by
  rw [decode, accepted]

/-- What is left of a character of standard UTF-8 that is read unit by unit: the character, or
U+FFFD for each of four bytes. -/
def inUnits (char : Char) : List Char :=
  if char.toNat ≤ 0xFFFF then [char] else List.replicate 4 Utf8.replacement

theorem decode_replacementUnit (rest : List UInt16) :
    Utf16.decode (replacementUnit :: rest) = Utf8.replacement :: Utf16.decode rest :=
  Utf16.decode_single (Utf16.not_paired_of_plain (by decide) rest)

section Characters

variable {char : Char} (rest : List UInt8)

theorem exists_unit (small : char.toNat ≤ 0xFFFF) :
    ∃ unit, ¬ Utf16.isSurrogate unit = true ∧ Utf16.single unit = char ∧
      units (String.utf8EncodeChar char ++ rest) = unit :: units rest := by
  obtain ⟨unit, plain, -, same⟩ | ⟨high, low, isHigh, isLow, -, same⟩ := Utf16.encodeChar_cases char
  · refine ⟨unit, plain, same, ?_⟩
    by_cases zero : unit = 0
    · -- NUL is one byte in standard UTF-8 and two as a unit.
      subst zero same
      exact units_one (by decide) rest
    · rw [← same, ← encodeUnit_of_plain ⟨zero, plain⟩, units_encodeUnit]
  · have code := Utf16.toNat_pair isHigh isLow
    rw [same] at code
    omega

theorem decode_units_firstPlane (small : char.toNat ≤ 0xFFFF) :
    Utf16.decode (units (String.utf8EncodeChar char ++ rest)) =
      char :: Utf16.decode (units rest) := by
  obtain ⟨unit, plain, same, spelled⟩ := exists_unit rest small
  rw [spelled, Utf16.decode_single (Utf16.not_paired_of_plain plain _), same]

theorem decode_units_beyond (large : 0xFFFF < char.toNat) :
    Utf16.decode (units (String.utf8EncodeChar char ++ rest)) =
      List.replicate 4 Utf8.replacement ++ Utf16.decode (units rest) := by
  -- None of the four bytes of a character above the first plane starts a unit.
  have range := Utf8.toNat_lt char
  have code : 0x10000 ≤ char.val.toNat := large
  have first : ∀ rest, StartsNone (UInt8.ofNat (char.val.toNat / 64 / 64 / 64 + 0xF0)) rest := by
    intro rest
    refine .inr (.inr (.inr ?_))
    rw [UInt8.toNat_ofNat']
    omega
  have behind : ∀ bits rest, StartsNone (UInt8.ofNat (bits % 64 + 0x80)) rest := by
    intro bits rest
    refine .inl ?_
    rw [UInt8.toNat_ofNat']
    omega
  rw [Utf8.utf8EncodeChar_eq, Utf8.following_ofFour code]
  change Utf16.decode (units (UInt8.ofNat (char.val.toNat / 64 / 64 / 64 + 0xF0) ::
    UInt8.ofNat (char.val.toNat / 64 / 64 % 64 + 0x80) ::
    UInt8.ofNat (char.val.toNat / 64 % 64 + 0x80) :: UInt8.ofNat (char.val.toNat % 64 + 0x80) ::
    rest)) = _
  rw [units_none (first _), units_none (behind _ _), units_none (behind _ _),
    units_none (behind _ _), decode_replacementUnit, decode_replacementUnit,
    decode_replacementUnit, decode_replacementUnit]
  rfl

end Characters

theorem decode_units_encoded (text : List Char) :
    Utf16.decode (units (text.flatMap String.utf8EncodeChar)) = text.flatMap inUnits := by
  induction text with
  | nil => rfl
  | cons char text ih =>
      rw [List.flatMap_cons, List.flatMap_cons, inUnits, ← ih]
      split
      case isTrue small => exact decode_units_firstPlane _ small
      case isFalse large => exact decode_units_beyond _ (by omega)

theorem length_le_flatMap_inUnits (text : List Char) :
    text.length ≤ (text.flatMap inUnits).length := by
  induction text with
  | nil => simp
  | cons char text ih =>
      have kept : 1 ≤ (inUnits char).length := by
        rw [inUnits]
        split <;> simp
      rw [List.flatMap_cons, List.length_append, List.length_cons]
      omega

theorem flatMap_inUnits_eq_self_iff {text : List Char} :
    text.flatMap inUnits = text ↔ ∀ char ∈ text, char.toNat ≤ 0xFFFF := by
  induction text with
  | nil => simp
  | cons char text ih =>
      rw [List.flatMap_cons, List.forall_mem_cons, ← ih, inUnits]
      split
      case isTrue small => simp [small]
      case isFalse large =>
        have longer := length_le_flatMap_inUnits text
        constructor
        · intro same
          have lengths := congrArg List.length same
          rw [List.length_append, List.length_replicate, List.length_cons] at lengths
          omega
        · rintro ⟨small, -⟩
          exact absurd small large

theorem byUnits_encode (text : String) :
    byUnits (Utf8.encode text) = String.ofList (text.toList.flatMap inUnits) := by
  rw [byUnits, Utf8.encode_eq_flatMap, decode_units_encoded]

/-- Bytes of a text in standard UTF-8, read unit by unit, give the text with each character above
the first plane replaced by U+FFFD four times; so the shortcut changes the result exactly where
there is such a character. -/
theorem shortcut_keeps_higher_planes {bytes : List UInt8} {text : String}
    (standard : Utf8.decode? bytes = some text) :
    byUnits bytes = String.ofList (text.toList.flatMap inUnits) ∧
      (byUnits bytes = decode bytes ↔ ∀ char ∈ text.toList, char.toNat ≤ 0xFFFF) := by
  have bytesOfText := Utf8.decode?_eq_some_iff.mp standard
  have read : byUnits bytes = String.ofList (text.toList.flatMap inUnits) := by
    rw [bytesOfText, byUnits_encode]
  refine ⟨read, ?_⟩
  rw [read, decode_of_accepted standard, ← flatMap_inUnits_eq_self_iff, ← String.toList_inj,
    String.toList_ofList]

theorem shortcut_keeps_higher_planes_mixed :
    Utf8.decode? [0x61, 0, 0xC3, 0xA9, 0xF0, 0x9F, 0x98, 0x80, 0x62] = some "a\x00é😀b" ∧
      byUnits [0x61, 0, 0xC3, 0xA9, 0xF0, 0x9F, 0x98, 0x80, 0x62] =
        "a\x00é\uFFFD\uFFFD\uFFFD\uFFFDb" ∧
      byUnits [0x61, 0, 0xC3, 0xA9, 0xF0, 0x9F, 0x98, 0x80, 0x62] ≠
        decode [0x61, 0, 0xC3, 0xA9, 0xF0, 0x9F, 0x98, 0x80, 0x62] := by
  have standard :
      Utf8.decode? [0x61, 0, 0xC3, 0xA9, 0xF0, 0x9F, 0x98, 0x80, 0x62] = some "a\x00é😀b" := by
    rw [Utf8.decode?_eq_some_iff, Utf8.encode_eq_flatMap]
    decide
  obtain ⟨read, agree⟩ := shortcut_keeps_higher_planes standard
  refine ⟨standard, read.trans (by decide), ?_⟩
  rw [ne_eq, agree]
  intro firstPlane
  exact absurd (firstPlane '😀' (by decide)) (by decide)

end ClassCoupling.ModifiedUtf8
