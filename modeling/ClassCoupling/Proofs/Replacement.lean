import ClassCoupling.Proofs.StandardText

/-!
Where U+FFFD shows that bytes were no text. Bytes that can be cut into first bytes and as many
bytes behind each as it asks for give one unit each and nothing else; where they cannot be cut
so, some byte starts no unit and U+FFFD stands for it. What the bytes behind a first byte look
like is not asked. One that is no such byte, such as a slash, gives its six low bits and is gone:
the bytes are read as if they had been well-formed.
-/
namespace ClassCoupling.Utf16

theorem single_mem_decode {unit : UInt16} (plain : ¬ isSurrogate unit = true) {units : List UInt16}
    (listed : unit ∈ units) : single unit ∈ decode units := by
  have denotes := denotes_decode units
  generalize decode units = text at denotes
  induction denotes with
  | nil => simp at listed
  | @char units text char _ ih =>
      obtain ⟨only, -, spelled, same⟩ | ⟨high, low, isHighUnit, isLowUnit, spelled, -⟩ :=
        encodeChar_cases char
      · rw [spelled, List.singleton_append, List.mem_cons] at listed
        rw [List.mem_cons]
        obtain rfl | later := listed
        · exact .inl same
        · exact .inr (ih later)
      · have notHigh : unit ≠ high := by
          rintro rfl
          simp [isSurrogate, isHighUnit] at plain
        have notLow : unit ≠ low := by
          rintro rfl
          simp [isSurrogate, isLowUnit] at plain
        simp only [spelled, List.cons_append, List.nil_append, List.mem_cons, notHigh, notLow,
          false_or] at listed
        exact List.mem_cons_of_mem _ (ih listed)
  | @unpaired other units text surrogate _ _ ih =>
      obtain rfl | later := List.mem_cons.mp listed
      · exact absurd surrogate plain
      · exact List.mem_cons_of_mem _ (ih later)

theorem Denotes.eq_encode {units : List UInt16} {text : List Char} (denotes : Denotes units text)
    (clean : Utf8.replacement ∉ text) : units = encode text := by
  induction denotes with
  | nil => rfl
  | char char _ ih => rw [encode, List.flatMap_cons, ← encode, ← ih (by simp_all)]
  | unpaired => simp at clean

end ClassCoupling.Utf16

namespace ClassCoupling.ModifiedUtf8

/-- Bytes cut into units: each a first byte and as many bytes behind it as it asks for, which are
`allowed` there. A first byte gives the bits below its mark and a byte behind it its six low
bits. -/
inductive Framed (allowed : UInt8 → Prop) : List UInt8 → List UInt16 → Prop
  | nil : Framed allowed [] []
  | one {lead : UInt8} {bytes : List UInt8} {units : List UInt16} (most : lead.toNat < 0x80)
      (others : Framed allowed bytes units) :
      Framed allowed (lead :: bytes) (UInt16.ofNat lead.toNat :: units)
  | two {lead second : UInt8} {bytes : List UInt8} {units : List UInt16}
      (least : 0xC0 ≤ lead.toNat) (most : lead.toNat < 0xE0) (behind : allowed second)
      (others : Framed allowed bytes units) :
      Framed allowed (lead :: second :: bytes)
        (UInt16.ofNat ((lead.toNat - 0xC0) * 64 + second.toNat % 64) :: units)
  | three {lead second third : UInt8} {bytes : List UInt8} {units : List UInt16}
      (least : 0xE0 ≤ lead.toNat) (most : lead.toNat < 0xF0) (behind : allowed second)
      (last : allowed third) (others : Framed allowed bytes units) :
      Framed allowed (lead :: second :: third :: bytes)
        (UInt16.ofNat (((lead.toNat - 0xE0) * 64 + second.toNat % 64) * 64 + third.toNat % 64) ::
          units)

/-- The form that bytes behind a first byte have. -/
def IsBehind (byte : UInt8) : Prop := 0x80 ≤ byte.toNat ∧ byte.toNat < 0xC0

theorem twoByteUnit_eq {lead : UInt8} (least : 0xC0 ≤ lead.toNat) (most : lead.toNat < 0xE0)
    (second : UInt8) :
    twoByteUnit lead second = UInt16.ofNat ((lead.toNat - 0xC0) * 64 + second.toNat % 64) := by
  have bits : lead.toNat % 32 = lead.toNat - 0xC0 := by omega
  rw [twoByteUnit, Utf8.lowFive_eq_mod, Utf8.payload_eq_mod, bits]

theorem threeByteUnit_eq {lead : UInt8} (least : 0xE0 ≤ lead.toNat) (most : lead.toNat < 0xF0)
    (second third : UInt8) :
    threeByteUnit lead second third =
      UInt16.ofNat (((lead.toNat - 0xE0) * 64 + second.toNat % 64) * 64 + third.toNat % 64) := by
  have bits : lead.toNat % 16 = lead.toNat - 0xE0 := by omega
  rw [threeByteUnit, Utf8.lowFour_eq_mod, Utf8.payload_eq_mod, Utf8.payload_eq_mod, bits]

namespace Framed

variable {allowed : UInt8 → Prop} {bytes : List UInt8} {units : List UInt16}

theorem units_eq (framed : Framed allowed bytes units) : ModifiedUtf8.units bytes = units := by
  induction framed with
  | nil => rfl
  | @one lead bytes units most _ ih =>
      have unit : lead.toUInt16 = UInt16.ofNat lead.toNat := by
        rw [← UInt16.toNat_inj, UInt8.toNat_toUInt16, UInt16.toNat_ofNat']
        omega
      rw [units_one most, ih, unit]
  | two least most _ _ ih => rw [units_two least most, ih, twoByteUnit_eq least most]
  | three least most _ _ _ ih => rw [units_three least most, ih, threeByteUnit_eq least most]

theorem not_beyond {lead : UInt8} (framed : Framed allowed (lead :: bytes) units) :
    lead.toNat < 0xF0 := by
  cases framed <;> omega

theorem behind_char {char : Char} (small : char.toNat ≤ 0xFFFF) {rest : List UInt8}
    (framed : Framed allowed (String.utf8EncodeChar char ++ rest) units) :
    ∃ later, Framed allowed rest later := by
  have most : char.val.toNat < 0x10000 := Nat.lt_succ_of_le small
  rw [Utf8.utf8EncodeChar_eq] at framed
  generalize char.val.toNat = code at framed most
  -- The first byte tells how many follow, so the cut goes where the character ends.
  by_cases one : code < 0x80
  · rw [Utf8.following_ofOne one] at framed
    change Framed allowed (UInt8.ofNat code :: rest) units at framed
    have lead : (UInt8.ofNat code).toNat = code := by
      rw [UInt8.toNat_ofNat']
      omega
    cases framed with
    | one _ others => exact ⟨_, others⟩
    | two | three => omega
  · by_cases two : code < 0x800
    · rw [Utf8.following_ofTwo (by omega) two] at framed
      change Framed allowed (UInt8.ofNat (code / 64 + 0xC0) :: UInt8.ofNat (code % 64 + 0x80) ::
        rest) units at framed
      have lead : (UInt8.ofNat (code / 64 + 0xC0)).toNat = code / 64 + 0xC0 := by
        rw [UInt8.toNat_ofNat']
        omega
      cases framed with
      | two _ _ _ others => exact ⟨_, others⟩
      | one | three => omega
    · rw [Utf8.following_ofThree (by omega) most] at framed
      change Framed allowed (UInt8.ofNat (code / 64 / 64 + 0xE0) ::
        UInt8.ofNat (code / 64 % 64 + 0x80) :: UInt8.ofNat (code % 64 + 0x80) :: rest) units at framed
      have lead : (UInt8.ofNat (code / 64 / 64 + 0xE0)).toNat = code / 64 / 64 + 0xE0 := by
        rw [UInt8.toNat_ofNat']
        omega
      cases framed with
      | three _ _ _ _ others => exact ⟨_, others⟩
      | one | two => omega

theorem firstPlane {text : List Char}
    (framed : Framed allowed (text.flatMap String.utf8EncodeChar) units) :
    ∀ char ∈ text, char.toNat ≤ 0xFFFF := by
  induction text generalizing units with
  | nil => simp
  | cons char text ih =>
      rw [List.flatMap_cons] at framed
      by_cases small : char.toNat ≤ 0xFFFF
      · obtain ⟨later, framed⟩ := framed.behind_char small
        exact List.forall_mem_cons.mpr ⟨small, ih framed⟩
      · have large : 0x10000 ≤ char.val.toNat := Nat.lt_of_not_le small
        have range := Utf8.toNat_lt char
        rw [Utf8.utf8EncodeChar_eq, Utf8.following_ofFour large] at framed
        have lead := framed.not_beyond
        have four : Utf8.mark 3 = 0xF0 := rfl
        rw [UInt8.toNat_ofNat'] at lead
        omega

theorem decode_eq (framed : Framed allowed bytes units) :
    decode bytes = String.ofList (Utf16.decode units) := by
  have read : byUnits bytes = String.ofList (Utf16.decode units) := by
    rw [byUnits, framed.units_eq]
  cases standard : Utf8.decode? bytes with
  | none => rw [decode_of_refused standard, read]
  | some text =>
      have bytesOfText := Utf8.decode?_eq_some_iff.mp standard
      rw [bytesOfText, Utf8.encode_eq_flatMap] at framed
      have same := flatMap_inUnits_eq_self_iff.mpr framed.firstPlane
      rw [← read, decode_of_accepted standard, bytesOfText, byUnits_encode, same,
        String.ofList_toList]

end Framed

def mended (byte : UInt8) : UInt8 := UInt8.ofNat (byte.toNat % 64 + 0x80)

theorem toNat_mended (byte : UInt8) : (mended byte).toNat = byte.toNat % 64 + 0x80 := by
  rw [mended, UInt8.toNat_ofNat']
  omega

theorem mended_isBehind (byte : UInt8) : IsBehind (mended byte) := by
  rw [IsBehind, toNat_mended]
  omega

theorem Framed.exists_wellFormed {bytes : List UInt8} {units : List UInt16}
    (framed : Framed (fun _ => True) bytes units) :
    ∃ others, others.length = bytes.length ∧ Framed IsBehind others units := by
  -- Each byte behind a first byte can be replaced by one of the proper form; the units stay.
  have low : ∀ byte, byte.toNat % 64 = (mended byte).toNat % 64 := by
    intro byte
    rw [toNat_mended]
    omega
  induction framed with
  | nil => exact ⟨[], rfl, .nil⟩
  | @one lead bytes units most _ ih =>
      obtain ⟨others, length, wellFormed⟩ := ih
      exact ⟨lead :: others, by simp [length], .one most wellFormed⟩
  | @two lead second bytes units least most _ _ ih =>
      obtain ⟨others, length, wellFormed⟩ := ih
      refine ⟨lead :: mended second :: others, by simp [length], ?_⟩
      rw [low second]
      exact .two least most (mended_isBehind second) wellFormed
  | @three lead second third bytes units least most _ _ _ ih =>
      obtain ⟨others, length, wellFormed⟩ := ih
      refine ⟨lead :: mended second :: mended third :: others, by simp [length], ?_⟩
      rw [low second, low third]
      exact .three least most (mended_isBehind second) (mended_isBehind third) wellFormed

theorem framed_or_replaced (bytes : List UInt8) :
    (∃ units, Framed (fun _ => True) bytes units) ∨ replacementUnit ∈ units bytes := by
  induction bytes using unit_induction with
  | nil => exact .inl ⟨[], .nil⟩
  | one lead rest most ih =>
      rw [units_one most]
      obtain ⟨found, framed⟩ | replaced := ih
      · exact .inl ⟨_, .one most framed⟩
      · exact .inr (List.mem_cons_of_mem _ replaced)
  | two lead second rest least most ih =>
      rw [units_two least most]
      obtain ⟨found, framed⟩ | replaced := ih
      · exact .inl ⟨_, .two least most trivial framed⟩
      · exact .inr (List.mem_cons_of_mem _ replaced)
  | three lead second third rest least most ih =>
      rw [units_three least most]
      obtain ⟨found, framed⟩ | replaced := ih
      · exact .inl ⟨_, .three least most trivial trivial framed⟩
      · exact .inr (List.mem_cons_of_mem _ replaced)
  | none lead rest none _ =>
      rw [units_none none]
      exact .inr List.mem_cons_self

section Foreign

variable {bytes : List UInt8}

theorem replacement_mem_of_not_framed (foreign : Utf8.decode? bytes = none)
    (unframed : ¬ ∃ units, Framed (fun _ => True) bytes units) :
    Utf8.replacement ∈ (decode bytes).toList := by
  have replaced := (framed_or_replaced bytes).resolve_left unframed
  rw [decode_of_refused foreign, byUnits, String.toList_ofList]
  exact Utf16.single_mem_decode (by decide) replaced

theorem replacement_notMem_iff (foreign : Utf8.decode? bytes = none) :
    Utf8.replacement ∉ (decode bytes).toList ↔
      ∃ text, Utf8.replacement ∉ text ∧ Framed (fun _ => True) bytes (Utf16.encode text) := by
  constructor
  · intro clean
    have framed := Classical.not_not.mp (mt (replacement_mem_of_not_framed foreign) clean)
    obtain ⟨units, framed⟩ := framed
    rw [framed.decode_eq, String.toList_ofList] at clean
    refine ⟨Utf16.decode units, clean, ?_⟩
    rwa [← (Utf16.denotes_decode units).eq_encode clean]
  · rintro ⟨text, clean, framed⟩
    rwa [framed.decode_eq, String.toList_ofList, (Utf16.denotes_encode text).decode_eq]

/-- Bytes that are not standard UTF-8 and cannot be cut into units show U+FFFD. Those that can be
cut give the text of their units, whatever the bytes behind first bytes look like, so that U+FFFD
shows only where the units themselves hold it or a surrogate alone; other bytes, which are
well-formed, give the same text. -/
theorem replacement_shows_unless_framed (foreign : Utf8.decode? bytes = none) :
    ((¬ ∃ units, Framed (fun _ => True) bytes units) →
      Utf8.replacement ∈ (decode bytes).toList) ∧
    (Utf8.replacement ∉ (decode bytes).toList ↔
      ∃ text, Utf8.replacement ∉ text ∧ Framed (fun _ => True) bytes (Utf16.encode text)) ∧
    ∀ units, Framed (fun _ => True) bytes units →
      Utf16.Denotes units (decode bytes).toList ∧
      ∃ others, others.length = bytes.length ∧ Framed IsBehind others units ∧
        decode others = decode bytes := by
  refine ⟨replacement_mem_of_not_framed foreign, replacement_notMem_iff foreign, ?_⟩
  intro units framed
  obtain ⟨others, length, wellFormed⟩ := framed.exists_wellFormed
  refine ⟨?_, others, length, wellFormed, ?_⟩
  · rw [framed.decode_eq, String.toList_ofList]
    exact Utf16.denotes_decode units
  · rw [wellFormed.decode_eq, framed.decode_eq]

end Foreign

def swallowing : List UInt8 := [0x61, 0xC3, 0x2F, 0x62]

theorem swallowing_framed :
    Framed (fun _ => True) swallowing (Utf16.encode ['a', 'ï', 'b']) :=
  .one (by decide) (.two (by decide) (by decide) trivial (.one (by decide) .nil))

theorem swallowing_foreign : Utf8.decode? swallowing = none := by
  rw [Utf8.decode?, swallowing, Utf8.decodeAfter?_of_scalar rfl, Utf8.decodeAfter?_of_malformed rfl]
  rfl

theorem swallowing_not_wellFormed : ¬ ∃ units, Framed IsBehind swallowing units := by
  rintro ⟨units, framed⟩
  cases framed with
  | one _ others =>
      cases others with
      | one most => exact absurd most (by decide)
      | two _ _ behind => exact absurd behind.1 (by decide)
      | three least => exact absurd least (by decide)
  | two least => exact absurd least (by decide)
  | three least => exact absurd least (by decide)

/-- Bytes that are neither standard UTF-8 nor well-formed are read as a text without U+FFFD, in
which the slash is missing. -/
theorem slash_swallowed_without_replacement :
    Utf8.decode? swallowing = none ∧ (¬ ∃ units, Framed IsBehind swallowing units) ∧
      decode swallowing = "aïb" ∧ Utf8.replacement ∉ (decode swallowing).toList := by
  have text : decode swallowing = "aïb" := by
    rw [swallowing_framed.decode_eq, (Utf16.denotes_encode _).decode_eq]
  refine ⟨swallowing_foreign, swallowing_not_wellFormed, text, ?_⟩
  rw [text]
  decide

theorem replacement_shows_unless_framed_swallowing :
    Utf8.decode? swallowing = none ∧
      ∃ others, Framed IsBehind others (Utf16.encode ['a', 'ï', 'b']) ∧
        decode others = decode swallowing := by
  obtain ⟨-, -, read⟩ := replacement_shows_unless_framed swallowing_foreign
  obtain ⟨-, others, -, wellFormed, same⟩ := read _ swallowing_framed
  exact ⟨swallowing_foreign, others, wellFormed, same⟩

end ClassCoupling.ModifiedUtf8
