import ClassCoupling.Proofs.ByteOrder
import ClassCoupling.Text.ModifiedUtf8

/-!
Decoding gives back every text from its bytes. A step over the encoding of a
character finds a first byte in the range of its length and as many further bytes
as that asks for, each with the six bits that encoding put there; the bounds on the
second byte hold because the code point is in range and no surrogate. Class-file
text is read as standard UTF-8 where it can be, so it too gives the text back.
-/
namespace ClassCoupling.Utf8

theorem isContinuation_ofNat {bits : Nat} (small : bits < 64) :
    isContinuation (UInt8.ofNat (bits + 0x80)) = true := by
  have each : ∀ bits < 64, isContinuation (UInt8.ofNat (bits + 0x80)) = true := by decide
  exact each bits small

theorem payload_ofNat {bits : Nat} (small : bits < 64) :
    payload (UInt8.ofNat (bits + 0x80)) = bits := by
  have each : ∀ bits < 64, payload (UInt8.ofNat (bits + 0x80)) = bits := by decide
  exact each bits small

theorem isSecond_ofThree {lead second : Nat} (leadSmall : lead < 16) (small : second < 64)
    (shortest : lead = 0 → 32 ≤ second) (noSurrogate : lead = 13 → second < 32) :
    isSecond (UInt8.ofNat (lead + 0xE0)) (UInt8.ofNat (second + 0x80)) = true := by
  have each : ∀ lead < 16, ∀ second < 64, (lead = 0 → 32 ≤ second) → (lead = 13 → second < 32) →
      isSecond (UInt8.ofNat (lead + 0xE0)) (UInt8.ofNat (second + 0x80)) = true := by
    decide +kernel
  exact each lead leadSmall second small shortest noSurrogate

theorem isSecond_ofFour {lead second : Nat} (leadSmall : lead < 5) (small : second < 64)
    (shortest : lead = 0 → 16 ≤ second) (inRange : lead = 4 → second < 16) :
    isSecond (UInt8.ofNat (lead + 0xF0)) (UInt8.ofNat (second + 0x80)) = true := by
  have each : ∀ lead < 5, ∀ second < 64, (lead = 0 → 16 ≤ second) → (lead = 4 → second < 16) →
      isSecond (UInt8.ofNat (lead + 0xF0)) (UInt8.ofNat (second + 0x80)) = true := by
    decide +kernel
  exact each lead leadSmall second small shortest inRange

section Characters

variable (code : Nat) (rest : List UInt8)

theorem step_ofOne (small : code < 0x80) :
    step (UInt8.ofNat code) rest = .scalar (Char.ofNat code) rest := by
  have value : (UInt8.ofNat code).toNat = code := by
    rw [UInt8.toNat_ofNat']
    omega
  have low : UInt8.ofNat code < 0x80 := by
    rw [UInt8.lt_iff_toNat_lt, value]
    exact small
  rw [step.eq_def, if_pos low, value]

theorem step_ofTwo (least : 0x80 ≤ code) (most : code < 0x800) :
    step (UInt8.ofNat (code / 64 + 0xC0)) (UInt8.ofNat (code % 64 + 0x80) :: rest) =
      .scalar (Char.ofNat code) rest := by
  have lead : ∀ bits < 32, 2 ≤ bits → ¬ UInt8.ofNat (bits + 0xC0) < 0x80 ∧
      (0xC2 ≤ UInt8.ofNat (bits + 0xC0) && UInt8.ofNat (bits + 0xC0) ≤ 0xDF) = true ∧
      (UInt8.ofNat (bits + 0xC0) &&& 0x1F).toNat = bits := by
    decide
  obtain ⟨notOne, two, bits⟩ := lead (code / 64) (by omega) (by omega)
  have low : code % 64 < 64 := by omega
  have sum : code / 64 * 64 + code % 64 = code := by omega
  rw [step.eq_def, if_neg notOne, if_pos two, bits]
  simp only [isContinuation_ofNat low, ↓reduceIte, payload_ofNat low, sum]

theorem step_ofThree (least : 0x800 ≤ code) (most : code < 0x10000)
    (noSurrogate : code < 0xD800 ∨ 0xDFFF < code) :
    step (UInt8.ofNat (code / 64 / 64 + 0xE0))
        (UInt8.ofNat (code / 64 % 64 + 0x80) :: UInt8.ofNat (code % 64 + 0x80) :: rest) =
      .scalar (Char.ofNat code) rest := by
  have lead : ∀ bits < 16, ¬ UInt8.ofNat (bits + 0xE0) < 0x80 ∧
      ¬ (0xC2 ≤ UInt8.ofNat (bits + 0xE0) && UInt8.ofNat (bits + 0xE0) ≤ 0xDF) = true ∧
      (0xE0 ≤ UInt8.ofNat (bits + 0xE0) && UInt8.ofNat (bits + 0xE0) ≤ 0xEF) = true ∧
      (UInt8.ofNat (bits + 0xE0) &&& 0x0F).toNat = bits := by
    decide
  obtain ⟨notOne, notTwo, three, bits⟩ := lead (code / 64 / 64) (by omega)
  have low : code % 64 < 64 := by omega
  have middle : code / 64 % 64 < 64 := by omega
  have second : isSecond (UInt8.ofNat (code / 64 / 64 + 0xE0))
      (UInt8.ofNat (code / 64 % 64 + 0x80)) = true :=
    isSecond_ofThree (by omega) middle (by omega) (by omega)
  have sum : (code / 64 / 64 * 64 + code / 64 % 64) * 64 + code % 64 = code := by omega
  rw [step.eq_def, if_neg notOne, if_neg notTwo, if_pos three, bits]
  simp only [second, isContinuation_ofNat low, Bool.not_true, Bool.false_eq_true, ↓reduceIte,
    payload_ofNat middle, payload_ofNat low, sum]

theorem step_ofFour (least : 0x10000 ≤ code) (most : code < 0x110000) :
    step (UInt8.ofNat (code / 64 / 64 / 64 + 0xF0))
        (UInt8.ofNat (code / 64 / 64 % 64 + 0x80) :: UInt8.ofNat (code / 64 % 64 + 0x80) ::
          UInt8.ofNat (code % 64 + 0x80) :: rest) =
      .scalar (Char.ofNat code) rest := by
  have lead : ∀ bits < 5, ¬ UInt8.ofNat (bits + 0xF0) < 0x80 ∧
      ¬ (0xC2 ≤ UInt8.ofNat (bits + 0xF0) && UInt8.ofNat (bits + 0xF0) ≤ 0xDF) = true ∧
      ¬ (0xE0 ≤ UInt8.ofNat (bits + 0xF0) && UInt8.ofNat (bits + 0xF0) ≤ 0xEF) = true ∧
      (0xF0 ≤ UInt8.ofNat (bits + 0xF0) && UInt8.ofNat (bits + 0xF0) ≤ 0xF4) = true ∧
      (UInt8.ofNat (bits + 0xF0) &&& 0x07).toNat = bits := by
    decide
  obtain ⟨notOne, notTwo, notThree, four, bits⟩ := lead (code / 64 / 64 / 64) (by omega)
  have low : code % 64 < 64 := by omega
  have middle : code / 64 % 64 < 64 := by omega
  have high : code / 64 / 64 % 64 < 64 := by omega
  have second : isSecond (UInt8.ofNat (code / 64 / 64 / 64 + 0xF0))
      (UInt8.ofNat (code / 64 / 64 % 64 + 0x80)) = true :=
    isSecond_ofFour (by omega) high (by omega) (by omega)
  have sum : ((code / 64 / 64 / 64 * 64 + code / 64 / 64 % 64) * 64 + code / 64 % 64) * 64 +
      code % 64 = code := by omega
  rw [step.eq_def, if_neg notOne, if_neg notTwo, if_neg notThree, if_pos four, bits]
  simp only [second, isContinuation_ofNat middle, isContinuation_ofNat low, Bool.not_true,
    Bool.false_eq_true, ↓reduceIte, payload_ofNat high, payload_ofNat middle, payload_ofNat low,
    sum]

/-- A step over the encoding of a character gives the character and leaves what follows. -/
theorem step_utf8EncodeChar (char : Char) :
    ∃ lead tail, String.utf8EncodeChar char = lead :: tail ∧
      step lead (tail ++ rest) = .scalar char rest := by
  have valid := char.valid
  simp only [UInt32.isValidChar, Nat.isValidChar] at valid
  have same : Char.ofNat char.val.toNat = char := Char.ofNat_toNat char
  rw [utf8EncodeChar_eq]
  -- The code point decides the length; each length has its own lemma.
  unfold following
  by_cases one : char.val.toNat ≤ 0x7F
  · have step := step_ofOne char.val.toNat rest (by omega)
    rw [same] at step
    simp only [one, ↓reduceIte, bytesOf, mark]
    exact ⟨_, [], rfl, step⟩
  · by_cases two : char.val.toNat ≤ 0x7FF
    · have step := step_ofTwo char.val.toNat rest (by omega) (by omega)
      rw [same] at step
      simp only [one, two, ↓reduceIte, bytesOf, mark]
      exact ⟨_, _, rfl, step⟩
    · by_cases three : char.val.toNat ≤ 0xFFFF
      · have step := step_ofThree char.val.toNat rest (by omega) (by omega) (by omega)
        rw [same] at step
        simp only [one, two, three, ↓reduceIte, bytesOf, mark]
        exact ⟨_, _, rfl, step⟩
      · have step := step_ofFour char.val.toNat rest (by omega) (by omega)
        rw [same] at step
        simp only [one, two, three, ↓reduceIte, bytesOf, mark]
        exact ⟨_, _, rfl, step⟩

end Characters

theorem decodeAfter?_of_scalar {lead : UInt8} {rest after : List UInt8} {char : Char}
    (taken : step lead rest = .scalar char after) (found : List Char) :
    decodeAfter? found (lead :: rest) = decodeAfter? (char :: found) after := by
  rw [decodeAfter?]
  split
  case h_1 next left step =>
    rw [taken, Step.scalar.injEq] at step
    obtain ⟨rfl, rfl⟩ := step
    rfl
  case h_2 left step =>
    rw [taken] at step
    cases step

theorem decodeAfter?_of_malformed {lead : UInt8} {rest after : List UInt8}
    (taken : step lead rest = .malformed after) (found : List Char) :
    decodeAfter? found (lead :: rest) = none := by
  rw [decodeAfter?]
  split
  case h_1 next left step =>
    rw [taken] at step
    cases step
  case h_2 => rfl

theorem decodeAfter?_encoded (found text : List Char) :
    decodeAfter? found (text.flatMap String.utf8EncodeChar) = some (found.reverse ++ text) := by
  induction text generalizing found with
  | nil => simp [decodeAfter?]
  | cons char text ih =>
      obtain ⟨lead, tail, bytes, step⟩ :=
        step_utf8EncodeChar (text.flatMap String.utf8EncodeChar) char
      rw [List.flatMap_cons, bytes, List.cons_append, decodeAfter?_of_scalar step, ih]
      simp

theorem decode?_encode (text : String) : decode? (encode text) = some text := by
  rw [decode?, encode_eq_flatMap, decodeAfter?_encoded]
  simp

end ClassCoupling.Utf8

namespace ClassCoupling.ModifiedUtf8

theorem decode_encode (text : String) : decode (Utf8.encode text) = text := by
  rw [decode, Utf8.decode?_encode]

end ClassCoupling.ModifiedUtf8
