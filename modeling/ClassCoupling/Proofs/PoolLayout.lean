import ClassCoupling.Proofs.PoolFormat

/-!
Where the constants of a pool stand. The slots are filled from one on, each constant
begins where the widths of those before it end, and the second slot of a wide constant
stays dead. Reading accepts exactly the bytes of a count and of constants that fill the
slots it declares, and the indices that lead nowhere are zero, those past the count and
the dead slots.
-/
namespace ClassCoupling.Pool

open Reader

/-- The number of slots that constants take together. -/
def widths : List Constant → Nat
  | [] => 0
  | constant :: constants => constant.width + widths constants

theorem length_flatMap_slotsOf (constants : List Constant) :
    (constants.flatMap slotsOf).length = widths constants := by
  induction constants with
  | nil => rfl
  | cons constant constants ih =>
      rw [List.flatMap_cons, List.length_append, slotsOf_length, ih, widths]

theorem eq_nil_of_widths {constants : List Constant} (none : widths constants = 0) :
    constants = [] := by
  cases constants with
  | nil => rfl
  | cons constant constants =>
      have positive := constant.width_pos
      simp only [widths] at none
      omega

/-- Bytes that begin with a count and the constants that fill the slots it declares. -/
structure Spells (count : UInt16) (constants : List Constant) (rest bytes : List UInt8) :
    Prop where
  bytes : bytes = u16Bytes count ++ constants.flatMap Constant.encode ++ rest
  shapes : ∀ constant ∈ constants, constant.Fits
  slots : 1 + widths constants = max count.toNat 1

def declared (count : UInt16) (constants : List Constant) : Pool :=
  if count = 0 then empty else ofConstants constants

section Declared

variable {count : UInt16} {constants : List Constant} {rest bytes : List UInt8}

theorem Spells.eq_nil (spells : Spells count constants rest bytes) (zero : count = 0) :
    constants = [] := by
  have slots := spells.slots
  have none : count.toNat = 0 := congrArg UInt16.toNat zero
  exact eq_nil_of_widths (by omega)

theorem Spells.size_declared (spells : Spells count constants rest bytes) :
    (declared count constants).size = count.toNat := by
  have slots := spells.slots
  unfold declared
  split
  case isTrue zero => simp [zero, empty, Pool.size]
  case isFalse positive =>
    have some : count.toNat ≠ 0 := fun none => positive (UInt16.toNat_inj.mp none)
    rw [size_ofConstants, length_flatMap_slotsOf]
    omega

theorem Spells.constants_declared (spells : Spells count constants rest bytes) :
    (declared count constants).constants = constants := by
  unfold declared
  split
  case isTrue zero => rw [spells.eq_nil zero]; rfl
  case isFalse => exact constants_ofConstants constants

theorem Spells.encode_declared (spells : Spells count constants rest bytes) :
    (declared count constants).encode = u16Bytes count ++ constants.flatMap Constant.encode := by
  rw [encode, spells.size_declared, UInt16.ofNat_toNat, spells.constants_declared]

theorem Spells.read_eq (spells : Spells count constants rest bytes) (offset : Nat) :
    read ⟨offset, bytes⟩ =
      .ok (declared count constants) ⟨offset + (bytes.length - rest.length), rest⟩ := by
  have laid : (declared count constants).Laid := by
    unfold declared
    split
    · exact .inl rfl
    · exact .inr ⟨constants, rfl⟩
  have fits : (declared count constants).Fits := by
    refine ⟨?_, ?_⟩
    · rw [spells.size_declared]
      exact count.toNat_lt
    · rw [spells.constants_declared]
      exact spells.shapes
  have accepted := read_exact.accepts ⟨laid, fits⟩ offset rest
  have used : bytes.length - rest.length = (declared count constants).encode.length := by
    rw [spells.bytes, spells.encode_declared, List.length_append, Nat.add_sub_cancel_right]
  rw [used, ← accepted, spells.encode_declared, spells.bytes]

theorem exists_spells {offset : Nat} {pool : Pool} {after : Cursor}
    (accepted : read ⟨offset, bytes⟩ = .ok pool after) :
    ∃ constants, Spells (UInt16.ofNat pool.size) constants after.rest bytes := by
  obtain ⟨⟨laid, fits⟩, split, -⟩ := read_exact.inverts accepted
  have size : (UInt16.ofNat pool.size).toNat = pool.size := UInt16.toNat_ofNat_of_lt' fits.size
  refine ⟨pool.constants, ⟨by rw [split, encode], fits.constants, ?_⟩⟩
  rw [size]
  obtain rfl | ⟨constants, rfl⟩ := laid
  · rfl
  · rw [constants_ofConstants, size_ofConstants, length_flatMap_slotsOf]
    omega

end Declared

/-- The slots behind the first one, with the slots that `before` takes left out. -/
theorem slot_ofConstants (before after : List Constant) (place : Nat) :
    (ofConstants (before ++ after)).slots[1 + widths before + place]? =
      (after.flatMap slotsOf)[place]? := by
  have behind : (before.flatMap slotsOf).length ≤ widths before + place := by
    rw [length_flatMap_slotsOf]
    omega
  have shifted : 1 + widths before + place = widths before + place + 1 := by omega
  rw [ofConstants, List.getElem?_toArray, shifted, List.getElem?_cons_succ, List.flatMap_append,
    List.getElem?_append_right behind, length_flatMap_slotsOf, Nat.add_sub_cancel_left]

theorem slotsOf_getElem? (constant : Constant) (others : List (Option Constant)) :
    (slotsOf constant ++ others)[0]? = some (some constant) ∧
      (constant.isWide = true → (slotsOf constant ++ others)[1]? = some none) := by
  unfold slotsOf
  split <;> simp_all

theorem begins_at (before after : List Constant) (constant : Constant) :
    (ofConstants (before ++ constant :: after)).slots[1 + widths before]? =
      some (some constant) := by
  have found := slot_ofConstants before (constant :: after) 0
  rw [List.flatMap_cons] at found
  exact found.trans (slotsOf_getElem? constant _).1

theorem dead_after (before after : List Constant) {constant : Constant}
    (wide : constant.isWide = true) :
    (ofConstants (before ++ constant :: after)).slots[1 + widths before + 1]? = some none := by
  rw [slot_ofConstants, List.flatMap_cons]
  exact (slotsOf_getElem? constant _).2 wide

theorem slot_cases {constants : List Constant} {slot : Nat} (inside : slot < widths constants) :
    ∃ before constant after, constants = before ++ constant :: after ∧
      (slot = widths before ∨ constant.isWide = true ∧ slot = widths before + 1) := by
  induction constants generalizing slot with
  | nil => simp [widths] at inside
  | cons constant constants ih =>
      simp only [widths] at inside
      by_cases own : slot < constant.width
      · refine ⟨[], constant, constants, rfl, ?_⟩
        unfold Constant.width at own
        split at own
        case isTrue wide => simp only [widths, wide, true_and]; omega
        case isFalse => simp only [widths]; omega
      · have later : slot - constant.width < widths constants := by omega
        obtain ⟨before, found, after, rfl, place⟩ := ih later
        refine ⟨constant :: before, found, after, rfl, ?_⟩
        obtain begins | ⟨wide, behind⟩ := place
        · exact .inl (by simp only [widths]; omega)
        · exact .inr ⟨wide, by simp only [widths]; omega⟩

/-- The slot right behind the first slot of a wide constant. -/
def Dead (constants : List Constant) (slot : Nat) : Prop :=
  ∃ before constant after, constants = before ++ constant :: after ∧ constant.isWide = true ∧
    slot = 1 + widths before + 1

theorem entry_eq_invalid_iff {pool : Pool} {index : UInt16} :
    pool.entry index = .error (.invalidIndex index) ↔ ∀ constant, ¬ pool.Holds index constant := by
  unfold entry Holds
  split
  case h_1 constant slot => simp [slot]
  case h_2 missing => simpa using missing

theorem not_holds_ofConstants_iff {constants : List Constant} {index : UInt16} :
    (∀ constant, ¬ (ofConstants constants).Holds index constant) ↔
      index = 0 ∨ (ofConstants constants).size ≤ index.toNat ∨ Dead constants index.toNat := by
  have size : (ofConstants constants).size = widths constants + 1 := by
    rw [size_ofConstants, length_flatMap_slotsOf]
  constructor
  · intro missing
    by_cases first : index = 0
    · exact .inl first
    by_cases past : (ofConstants constants).size ≤ index.toNat
    · exact .inr (.inl past)
    have positive : index.toNat ≠ 0 := fun none => first (UInt16.toNat_inj.mp none)
    have inside : index.toNat - 1 < widths constants := by omega
    obtain ⟨before, constant, after, rfl, place⟩ := slot_cases inside
    obtain begins | ⟨wide, behind⟩ := place
    · have here : index.toNat = 1 + widths before := by omega
      refine absurd ?_ (missing constant)
      rw [Holds, here]
      exact begins_at before after constant
    · exact .inr (.inr ⟨before, constant, after, rfl, wide, by omega⟩)
  · rintro (rfl | past | ⟨before, wide, after, rfl, isWide, here⟩) constant held
    · simp [Holds, ofConstants] at held
    · obtain ⟨inside, -⟩ := Array.getElem?_eq_some_iff.mp held
      rw [Pool.size] at past
      omega
    · rw [Holds, here, dead_after before after isWide] at held
      simp at held

def liveEntry (slot : Option Constant × Nat) : Option (UInt16 × Constant) :=
  slot.1.map fun constant => (UInt16.ofNat slot.2, constant)

theorem live_eq (pool : Pool) : pool.live = pool.slots.toList.zipIdx.filterMap liveEntry := rfl

theorem filterMap_liveEntry (constants : List Constant) (start : Nat) :
    ((constants.flatMap slotsOf).zipIdx start).filterMap liveEntry =
      constants.mapIdx fun place constant =>
        (UInt16.ofNat (start + widths (constants.take place)), constant) := by
  induction constants generalizing start with
  | nil => rfl
  | cons constant constants ih =>
      have own : ((slotsOf constant).zipIdx start).filterMap liveEntry =
          [(UInt16.ofNat start, constant)] := by
        unfold slotsOf
        split <;> rfl
      rw [List.flatMap_cons, List.zipIdx_append, List.filterMap_append, own, slotsOf_length, ih,
        List.mapIdx_cons]
      simp [widths, Nat.add_assoc]

theorem live_ofConstants (constants : List Constant) :
    (ofConstants constants).live = constants.mapIdx fun place constant =>
      (UInt16.ofNat (1 + widths (constants.take place)), constant) := by
  rw [live_eq]
  exact filterMap_liveEntry constants 1

theorem widths_take_le (constants : List Constant) (place : Nat) :
    widths (constants.take place) ≤ widths constants := by
  induction constants generalizing place with
  | nil => simp [widths]
  | cons constant constants ih =>
      cases place with
      | zero => simp [widths]
      | succ place =>
          have others := ih place
          simp only [List.take_succ_cons, widths]
          omega

/-- The pool that a count and constants describe, said by what can be asked of it. -/
structure LaidOut (count : UInt16) (constants : List Constant) (pool : Pool) : Prop where
  size : pool.size = count.toNat
  entries : pool.live.map (fun entry => (entry.1.toNat, entry.2)) =
    constants.mapIdx fun place constant => (1 + widths (constants.take place), constant)
  found : ∀ index constant, (index, constant) ∈ pool.live → pool.entry index = .ok constant
  texts : ∀ index bytes, (index, .utf8 bytes) ∈ pool.live →
    pool.text index = .ok (ModifiedUtf8.decode bytes)
  missing : ∀ index : UInt16, pool.entry index = .error (.invalidIndex index) ↔
    index = 0 ∨ count ≤ index ∨ Dead constants index.toNat

theorem holds_of_mem_live {constants : List Constant} {index : UInt16} {constant : Constant}
    (room : widths constants < 65535) (listed : (index, constant) ∈ (ofConstants constants).live) :
    (ofConstants constants).Holds index constant := by
  rw [live_ofConstants, List.mem_mapIdx] at listed
  obtain ⟨place, inside, same⟩ := listed
  simp only [Prod.mk.injEq] at same
  obtain ⟨rfl, rfl⟩ := same
  have bound := widths_take_le constants place
  have small : 1 + widths (constants.take place) < 65536 := by omega
  have low : (UInt16.ofNat (1 + widths (constants.take place))).toNat =
      1 + widths (constants.take place) := UInt16.toNat_ofNat_of_lt' small
  have split : constants = constants.take place ++ constants[place] :: constants.drop (place + 1) := by
    simp
  have here := begins_at (constants.take place) (constants.drop (place + 1)) constants[place]
  rw [← split] at here
  rw [Holds, low, here]

theorem Spells.laidOut {count : UInt16} {constants : List Constant} {rest bytes : List UInt8}
    (spells : Spells count constants rest bytes) :
    LaidOut count constants (declared count constants) := by
  have size := spells.size_declared
  have slots := spells.slots
  have small := count.toNat_lt
  by_cases zero : count = 0
  · obtain rfl := spells.eq_nil zero
    have nothing : declared count [] = empty := if_pos zero
    rw [nothing] at size ⊢
    refine ⟨size, rfl, ?_, ?_, ?_⟩
    · intro index constant listed
      cases listed
    · intro index bytes listed
      cases listed
    · intro index
      simp [entry, empty, zero]
  · have some : count.toNat ≠ 0 := fun none => zero (UInt16.toNat_inj.mp none)
    have filled : declared count constants = ofConstants constants := if_neg zero
    have room : widths constants < 65535 := by omega
    rw [filled] at size ⊢
    refine ⟨size, ?_, ?_, ?_, ?_⟩
    · rw [live_ofConstants]
      apply List.ext_getElem
      · simp
      · intro place _ _
        have bound := widths_take_le constants place
        have small : 1 + widths (constants.take place) < 65536 := by omega
        simp only [List.getElem_map, List.getElem_mapIdx, Prod.mk.injEq, and_true]
        exact UInt16.toNat_ofNat_of_lt' small
    · intro index constant listed
      exact entry_eq_ok_iff.mpr (holds_of_mem_live room listed)
    · intro index bytes listed
      exact text_eq_ok_iff.mpr ⟨bytes, holds_of_mem_live room listed, rfl⟩
    · intro index
      rw [entry_eq_invalid_iff, not_holds_ofConstants_iff, size, UInt16.le_iff_toNat_le]

/-- Reading succeeds exactly on the bytes of a pool, stops right behind them, and lays the
constants out in the slots that their widths give. -/
theorem read_accepts_layouts (offset : Nat) (bytes : List UInt8) :
    ((∃ pool after, read ⟨offset, bytes⟩ = .ok pool after) ↔
      ∃ count constants rest, Spells count constants rest bytes) ∧
    ∀ count constants rest, Spells count constants rest bytes →
      ∃ pool, read ⟨offset, bytes⟩ = .ok pool ⟨offset + (bytes.length - rest.length), rest⟩ ∧
        LaidOut count constants pool := by
  refine ⟨⟨?_, ?_⟩, ?_⟩
  · rintro ⟨pool, after, accepted⟩
    obtain ⟨constants, spells⟩ := exists_spells accepted
    exact ⟨_, constants, after.rest, spells⟩
  · rintro ⟨count, constants, rest, spells⟩
    exact ⟨_, _, spells.read_eq offset⟩
  · intro count constants rest spells
    exact ⟨_, spells.read_eq offset, spells.laidOut⟩

theorem read_accepts_layouts_wide :
    Spells 5 [.long 42, .utf8 [111, 107], .classInfo 3] [9]
        [0, 5, 5, 0, 0, 0, 0, 0, 0, 0, 42, 1, 0, 2, 111, 107, 7, 0, 3, 9] ∧
      ∃ pool, read ⟨8, [0, 5, 5, 0, 0, 0, 0, 0, 0, 0, 42, 1, 0, 2, 111, 107, 7, 0, 3, 9]⟩ =
          .ok pool ⟨27, [9]⟩ ∧
        LaidOut 5 [.long 42, .utf8 [111, 107], .classInfo 3] pool := by
  have spelled : Spells 5 [.long 42, .utf8 [111, 107], .classInfo 3] [9]
      [0, 5, 5, 0, 0, 0, 0, 0, 0, 0, 42, 1, 0, 2, 111, 107, 7, 0, 3, 9] :=
    ⟨by decide, by simp [Constant.Fits], by decide⟩
  exact ⟨spelled, (read_accepts_layouts 8 _).2 5 _ [9] spelled⟩

end ClassCoupling.Pool
