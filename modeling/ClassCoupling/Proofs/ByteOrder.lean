import ClassCoupling.Text.Utf8

/-!
Texts compare as their bytes do. The encoding of a character with a larger code
point differs from that of a smaller one at some byte, and is larger at the first
such byte, whatever follows the two; so the order of texts by their characters is
the order of their encodings byte by byte.
-/
namespace ClassCoupling.Utf8

def following (code : Nat) : Nat :=
  if code ≤ 0x7F then 0 else if code ≤ 0x7FF then 1 else if code ≤ 0xFFFF then 2 else 3

def mark : Nat → Nat
  | 0 => 0
  | 1 => 0xC0
  | 2 => 0xE0
  | _ => 0xF0

def leading : Nat → Nat → Nat
  | 0, code => code
  | count + 1, code => leading count (code / 64)

/-- A marked first byte and `count` bytes of six bits each. -/
def bytesOf (first : Nat) : Nat → Nat → List UInt8
  | 0, code => [UInt8.ofNat (code + first)]
  | count + 1, code => bytesOf first count (code / 64) ++ [UInt8.ofNat (code % 64 + 0x80)]

theorem toNat_lt (char : Char) : char.val.toNat < 0x110000 := by
  have valid := char.valid
  simp only [UInt32.isValidChar, Nat.isValidChar] at valid
  omega

theorem utf8EncodeChar_eq (char : Char) :
    String.utf8EncodeChar char =
      bytesOf (mark (following char.val.toNat)) (following char.val.toNat) char.val.toNat := by
  have range := toNat_lt char
  unfold String.utf8EncodeChar following
  generalize char.val.toNat = code at range
  simp only
  by_cases one : code ≤ 0x7F
  · simp [one, bytesOf, mark]
  · by_cases two : code ≤ 0x7FF
    · have lead : code / 64 % 32 = code / 64 := by omega
      simp [one, two, bytesOf, mark, lead]
    · by_cases three : code ≤ 0xFFFF
      · have lead : code / 4096 % 16 = code / 4096 := by omega
        simp [one, two, three, bytesOf, mark, lead, Nat.div_div_eq_div_mul]
      · have lead : code / 262144 % 8 = code / 262144 := by omega
        simp [one, two, three, bytesOf, mark, lead, Nat.div_div_eq_div_mul]

theorem ofNat_lt_ofNat {small large : Nat} (before : small < large) (bound : large < 256) :
    UInt8.ofNat small < UInt8.ofNat large := by
  rw [UInt8.lt_iff_toNat_lt, UInt8.toNat_ofNat', UInt8.toNat_ofNat']
  omega

theorem bytesOf_eq_cons (first count code : Nat) :
    ∃ rest, bytesOf first count code = UInt8.ofNat (leading count code + first) :: rest := by
  induction count generalizing code with
  | zero => exact ⟨[], rfl⟩
  | succ count ih =>
      obtain ⟨rest, same⟩ := ih (code / 64)
      refine ⟨rest ++ [UInt8.ofNat (code % 64 + 0x80)], ?_⟩
      rw [bytesOf, same, leading, List.cons_append]

theorem bytesOf_append_lt {first count small large : Nat} (before : small < large)
    (bound : leading count large + first < 256) (rest other : List UInt8) :
    bytesOf first count small ++ rest < bytesOf first count large ++ other := by
  -- With as many bytes, the six bits that differ first decide.
  induction count generalizing small large rest other with
  | zero => exact List.cons_lt_cons_iff.mpr (.inl (ofNat_lt_ofNat (by omega) bound))
  | succ count ih =>
      rw [bytesOf, bytesOf, List.append_assoc, List.append_assoc]
      by_cases higher : small / 64 < large / 64
      · exact ih higher bound _ _
      · have same : small / 64 = large / 64 := by omega
        have lower : small % 64 < large % 64 := by omega
        rw [same]
        exact List.append_left_lt
          (List.cons_lt_cons_iff.mpr (.inl (ofNat_lt_ofNat (by omega) (by omega))))

theorem leading_add_mark_lt {small large : Nat} (shorter : following small < following large)
    (range : large < 0x110000) :
    leading (following small) small + mark (following small) <
      leading (following large) large + mark (following large) := by
  revert shorter
  unfold following
  repeat' split
  all_goals
    simp only [leading, mark]
    omega

theorem leading_add_mark_lt_size {code : Nat} (range : code < 0x110000) :
    leading (following code) code + mark (following code) < 256 := by
  unfold following
  repeat' split
  all_goals
    simp only [leading, mark]
    omega

theorem following_le_following {small large : Nat} (before : small ≤ large) :
    following small ≤ following large := by
  unfold following
  repeat' split
  all_goals omega

theorem utf8EncodeChar_append_lt {first second : Char} (before : first < second)
    (rest other : List UInt8) :
    String.utf8EncodeChar first ++ rest < String.utf8EncodeChar second ++ other := by
  have order : first.val.toNat < second.val.toNat := before
  have range := toNat_lt second
  rw [utf8EncodeChar_eq, utf8EncodeChar_eq]
  obtain shorter | same := Nat.lt_or_eq_of_le (following_le_following (Nat.le_of_lt order))
  · obtain ⟨firstRest, firstBytes⟩ := bytesOf_eq_cons (mark (following first.val.toNat))
      (following first.val.toNat) first.val.toNat
    obtain ⟨secondRest, secondBytes⟩ := bytesOf_eq_cons (mark (following second.val.toNat))
      (following second.val.toNat) second.val.toNat
    rw [firstBytes, secondBytes]
    exact List.cons_lt_cons_iff.mpr (.inl
      (ofNat_lt_ofNat (leading_add_mark_lt shorter range) (leading_add_mark_lt_size range)))
  · rw [same]
    exact bytesOf_append_lt order (leading_add_mark_lt_size range) rest other

theorem encode_eq_flatMap (text : String) :
    encode text = text.toList.flatMap String.utf8EncodeChar := by
  have bytes : text.toUTF8 = text.toList.utf8Encode := by
    conv => lhs; rw [← String.ofList_toList (s := text)]
    exact String.toByteArray_ofList
  rw [encode, bytes]
  simp [List.utf8Encode]

theorem flatMap_utf8EncodeChar_lt {first second : List Char} (before : first < second) :
    first.flatMap String.utf8EncodeChar < second.flatMap String.utf8EncodeChar := by
  induction before with
  | @nil char rest =>
      obtain ⟨byte, bytes, same⟩ := List.exists_cons_of_ne_nil
        (String.utf8EncodeChar_ne_nil (c := char))
      rw [List.flatMap_cons, same]
      exact List.nil_lt_cons _ _
  | rel smaller => exact utf8EncodeChar_append_lt smaller _ _
  | cons _ ih => exact List.append_left_lt ih

/-- Texts are in the order of their bytes. -/
theorem compare_eq_lt_iff {first second : String} :
    compare first second = .lt ↔ encode first < encode second := by
  have order : compare first second = .lt ↔ first < second := compareOfLessAndEq_eq_lt
  rw [order, encode_eq_flatMap, encode_eq_flatMap]
  constructor
  · exact flatMap_utf8EncodeChar_lt
  · intro before
    -- Otherwise the texts are equal or the other way round, and so are their bytes.
    refine Decidable.byContradiction fun notBefore => ?_
    by_cases same : first = second
    · exact List.lt_irrefl _ (same ▸ before)
    · have after : second < first := by
        refine Decidable.byContradiction fun notAfter => ?_
        exact same (String.le_antisymm notAfter notBefore)
      exact List.lt_asymm before (flatMap_utf8EncodeChar_lt after)

end ClassCoupling.Utf8
