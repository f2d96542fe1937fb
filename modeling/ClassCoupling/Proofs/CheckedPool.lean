import ClassCoupling.ClassFile.References
import ClassCoupling.Proofs.CheckedText
import ClassCoupling.Proofs.PoolFormat

/-!
The constant pool by index. There is a slot for each number below the count, and an index
from one on says which slot is filled next; a text is decoded when it is read. The index is
below the count where a slot is filled, the count is a number of two bytes, and a constant
that would need a slot past the last one ends the reading before anything is filled.
-/
namespace ClassCoupling.Checked

inductive Entry where
  | text (value : String)
  | other (constant : Constant)
deriving DecidableEq, Repr

namespace Entry

def ofConstant : Constant → Entry
  | .utf8 bytes => text (ModifiedUtf8.decode bytes)
  | constant => other constant

def tag : Entry → UInt8
  | text _ => 1
  | other constant => constant.tag

def width : Entry → Nat
  | text _ => 1
  | other constant => constant.width

def classNameIndex? : Entry → Option UInt16
  | text _ => none
  | other constant => ClassFile.classNameIndex? constant

theorem width_pos (entry : Entry) : 0 < entry.width := by
  cases entry with
  | text value => exact Nat.one_pos
  | other constant => exact constant.width_pos

@[simp] theorem tag_ofConstant (constant : Constant) :
    (ofConstant constant).tag = constant.tag := by
  cases constant <;> rfl

@[simp] theorem width_ofConstant (constant : Constant) :
    (ofConstant constant).width = constant.width := by
  cases constant <;> rfl

@[simp] theorem classNameIndex?_ofConstant (constant : Constant) :
    (ofConstant constant).classNameIndex? = ClassFile.classNameIndex? constant := by
  cases constant <;> rfl

end Entry

open Scan

section Reading

variable (limit : Nat) (image : List UInt8)

def readText : Scan Entry := do
  let length ← u16 limit image
  let bytes ← take limit image length.toNat
  return .text (← lift (textOf limit bytes))

def readNumbers (index : UInt16) (tag : UInt8) : Scan Constant :=
  match tag with
  | 3 => return .integer (← i32 limit image)
  | 4 => return .float (← u32 limit image)
  | 5 => return .long (← i64 limit image)
  | 6 => return .double (← u64 limit image)
  | 7 => return .classInfo (← u16 limit image)
  | 8 => return .string (← u16 limit image)
  | 9 => return .fieldRef (← u16 limit image) (← u16 limit image)
  | 10 => return .methodRef (← u16 limit image) (← u16 limit image)
  | 11 => return .interfaceMethodRef (← u16 limit image) (← u16 limit image)
  | 12 => return .nameAndType (← u16 limit image) (← u16 limit image)
  | 15 => return .methodHandle (← u8 limit image) (← u16 limit image)
  | 16 => return .methodType (← u16 limit image)
  | 17 => return .dynamic (← u16 limit image) (← u16 limit image)
  | 18 => return .invokeDynamic (← u16 limit image) (← u16 limit image)
  | 19 => return .moduleInfo (← u16 limit image)
  | 20 => return .packageInfo (← u16 limit image)
  | _ => throw (.fault (.malformedPool index tag))

def readPayload (index : UInt16) (tag : UInt8) : Scan Entry :=
  if tag = 1 then readText limit image
  else return .other (← readNumbers limit image index tag)

def readEntry (index : UInt16) : Scan Entry := do
  readPayload limit image index (← u8 limit image)

def slotsFrom (count index : Nat) (slots : List (Option Entry)) : Scan (List (Option Entry)) :=
  if index < count then do
    let place ← lift (narrow index)
    let entry ← readEntry limit image place
    let next ← lift (within limit (index + entry.width))
    if next ≤ count then
      let filled ← lift (replace slots index (some entry))
      slotsFrom count (index + entry.width) filled
    else throw (.fault (.malformedPool place entry.tag))
  else pure slots
termination_by count - index
decreasing_by
  have := entry.width_pos
  omega

def readSlots : Scan (List (Option Entry)) := do
  let count ← u16 limit image
  slotsFrom limit image count.toNat 1 (List.replicate count.toNat none)

end Reading

section Agreement

variable {α β : Type} {limit : Nat} {image : List UInt8} {first : Reader α} {second : Reader β}
  {firstScan : Scan α} {secondScan : Scan β}

def Loads (constant : Constant) (entry : Entry) : Prop := entry = .ofConstant constant

def Keeps (constant found : Constant) : Prop :=
  found = constant ∧ Entry.ofConstant constant = .other constant

theorem oneField (agrees : Agrees image firstScan first Eq) {make : α → Constant}
    (plain : ∀ value, Entry.ofConstant (make value) = .other (make value)) :
    Agrees image (do return make (← firstScan)) (do return make (← first)) Keeps :=
  agrees.map (by rintro value _ rfl; exact ⟨rfl, plain value⟩)

theorem twoFields (agrees : Agrees image firstScan first Eq)
    (agreesSecond : Agrees image secondScan second Eq) {make : α → β → Constant}
    (plain : ∀ value other, Entry.ofConstant (make value other) = .other (make value other)) :
    Agrees image (do return make (← firstScan) (← secondScan))
      (do return make (← first) (← second)) Keeps := by
  refine agrees.bind ?_
  rintro value _ rfl
  exact oneField agreesSecond (plain value)

variable (fits : Addressable limit image)
include fits

theorem readText_agrees (index : UInt16) :
    Agrees image (readText limit image) (Constant.readPayload index 1) Loads := by
  refine (Agrees.u16 fits).bind ?_
  rintro count _ rfl
  refine (Agrees.take fits count.toNat).bind ?_
  rintro bytes _ ⟨rfl, length⟩
  have small : bytes.length + 2 ≤ limit := by
    have word := fits.word
    have bound := count.toNat_lt
    omega
  rw [textOf_eq small]
  exact .pure rfl

theorem readNumbers_agrees (index : UInt16) {tag : UInt8} (other : tag ≠ 1) :
    Agrees image (readNumbers limit image index tag) (Constant.readPayload index tag) Keeps := by
  unfold readNumbers
  split
  · exact oneField (.i32 fits) fun _ => rfl
  · exact oneField (.u32 fits) fun _ => rfl
  · exact oneField (.i64 fits) fun _ => rfl
  · exact oneField (.u64 fits) fun _ => rfl
  · exact oneField (.u16 fits) fun _ => rfl
  · exact oneField (.u16 fits) fun _ => rfl
  · exact twoFields (.u16 fits) (.u16 fits) fun _ _ => rfl
  · exact twoFields (.u16 fits) (.u16 fits) fun _ _ => rfl
  · exact twoFields (.u16 fits) (.u16 fits) fun _ _ => rfl
  · exact twoFields (.u16 fits) (.u16 fits) fun _ _ => rfl
  · exact twoFields (.u8 fits) (.u16 fits) fun _ _ => rfl
  · exact oneField (.u16 fits) fun _ => rfl
  · exact twoFields (.u16 fits) (.u16 fits) fun _ _ => rfl
  · exact twoFields (.u16 fits) (.u16 fits) fun _ _ => rfl
  · exact oneField (.u16 fits) fun _ => rfl
  · exact oneField (.u16 fits) fun _ => rfl
  · -- No other tag is known to either side.
    unfold Constant.readPayload
    split
    all_goals first
      | contradiction
      | exact .fault _

theorem readPayload_agrees (index : UInt16) (tag : UInt8) :
    Agrees image (readPayload limit image index tag) (Constant.readPayload index tag) Loads := by
  unfold readPayload
  split
  case isTrue text =>
    rw [text]
    exact readText_agrees fits index
  case isFalse other =>
    rw [← bind_pure (Constant.readPayload index tag)]
    refine (readNumbers_agrees fits index other).map ?_
    rintro constant _ ⟨rfl, plain⟩
    exact plain.symm

theorem readEntry_agrees (index : UInt16) :
    Agrees image (readEntry limit image index) (Constant.read index) Loads := by
  refine (Agrees.u8 fits).bind ?_
  rintro tag _ rfl
  exact readPayload_agrees fits index tag

end Agreement

section Slots

def loaded (slots : Array (Option Constant)) : List (Option Entry) :=
  slots.toList.map (Option.map .ofConstant)

@[simp] theorem length_loaded (slots : Array (Option Constant)) :
    (loaded slots).length = slots.size := by
  simp [loaded]

theorem loaded_append (slots : Array (Option Constant)) (more : List (Option Constant)) :
    loaded (slots ++ more.toArray) = loaded slots ++ more.map (Option.map .ofConstant) := by
  simp [loaded]

theorem replace_loaded (slots : Array (Option Constant)) {room : Nat} {constant : Constant}
    (enough : constant.width ≤ room + 1) :
    replace (loaded slots ++ List.replicate (room + 1) none) slots.size
        (some (.ofConstant constant)) =
      .ok (loaded (slots ++ (Pool.slotsOf constant).toArray) ++
        List.replicate (room + 1 - constant.width) none) := by
  rw [replace_eq (by simp), loaded_append]
  cases wide : constant.isWide with
  | false => simp [Constant.width, Pool.slotsOf, wide, List.replicate_succ]
  | true =>
      cases room with
      | zero => simp [Constant.width, wide] at enough
      | succ room => simp [Constant.width, Pool.slotsOf, wide, List.replicate_succ]

variable {limit : Nat} {image : List UInt8} (fits : Addressable limit image)
include fits

/-- The slots before the index are filled, and there is one for each number up to the count. -/
theorem slotsFrom_agrees (room : Nat) (slots : Array (Option Constant))
    (small : slots.size + room < 65536) :
    Agrees image
      (slotsFrom limit image (slots.size + room) slots.size
        (loaded slots ++ List.replicate room none))
      (Pool.readSlots room slots)
      (fun after found => found = loaded after ∧ found.length = slots.size + room) := by
  have word := fits.word
  induction room using Nat.strongRecOn generalizing slots with
  | ind room ih =>
      cases room with
      | zero =>
          rw [slotsFrom, if_neg (by simp)]
          exact .pure (by simp)
      | succ room =>
          rw [slotsFrom, if_pos (by omega), narrow_eq (by omega), lift_ok_bind,
            Pool.readSlots_succ]
          refine (readEntry_agrees fits _).bind ?_
          rintro constant _ rfl
          have positive := constant.width_pos
          have most : constant.width ≤ 2 := by unfold Constant.width; split <;> omega
          rw [Entry.width_ofConstant, Entry.tag_ofConstant, within_eq (by omega), lift_ok_bind]
          by_cases enough : constant.width ≤ room + 1
          · rw [if_pos (by omega), if_pos enough, replace_loaded slots enough, lift_ok_bind]
            have next := ih (room + 1 - constant.width) (by omega)
              (slots ++ (Pool.slotsOf constant).toArray)
            have size : (slots ++ (Pool.slotsOf constant).toArray).size =
                slots.size + constant.width := by
              simp [Pool.slotsOf_length]
            have total : slots.size + constant.width + (room + 1 - constant.width) =
                slots.size + (room + 1) := by omega
            rw [size, total] at next
            exact next small
          · rw [if_neg (by omega), if_neg enough]
            exact .fault _

/-- The slots of a pool, no more than two bytes can count. -/
structure Fills (pool : Pool) (slots : List (Option Entry)) : Prop where
  entries : slots = loaded pool.slots
  small : slots.length < 65536

theorem readSlots_agrees : Agrees image (readSlots limit image) Pool.read Fills := by
  refine (Agrees.u16 fits).bind ?_
  rintro count _ rfl
  have small := count.toNat_lt
  cases size : count.toNat with
  | zero =>
      rw [slotsFrom, if_neg (by omega)]
      exact .pure ⟨rfl, by simp⟩
  | succ room =>
      have filled := slotsFrom_agrees fits room #[none] (by simp; omega)
      rw [List.size_toArray, List.length_singleton, Nat.add_comm 1 room] at filled
      rw [← bind_pure (slotsFrom _ _ _ _ _)]
      refine filled.bind ?_
      rintro slots _ ⟨rfl, length⟩
      exact .pure ⟨rfl, by omega⟩

end Slots

section LookUps

variable (slots : List (Option Entry))

def entryAt (index : UInt16) : Except Fault Entry :=
  match slots[index.toNat]? with
  | some (some entry) => .ok entry
  | _ => .error (.invalidIndex index)

def textAt (index : UInt16) : Except Fault String := do
  match ← entryAt slots index with
  | .text value => return value
  | .other _ => throw (.wrongConstant index "Utf8")

def classNameAt (index : UInt16) : Except Fault String := do
  match (← entryAt slots index).classNameIndex? with
  | some nameIndex => textAt slots nameIndex
  | none => throw (.wrongConstant index "Class")

def live? (slot : Option Entry × Nat) : Option (Entry × Nat) := slot.1.map (·, slot.2)

def numbered : Outcome (List (UInt16 × Entry)) :=
  (slots.zipIdx.filterMap live?).mapM fun entry => do return (← narrow entry.2, entry.1)

end LookUps

section LookUpsAgree

variable {pool : Pool} {slots : List (Option Entry)} (fills : Fills pool slots)
include fills

theorem entryAt_eq (index : UInt16) :
    entryAt slots index = Entry.ofConstant <$> pool.entry index := by
  rw [fills.entries]
  simp only [entryAt, loaded, List.getElem?_map, Array.getElem?_toList, Pool.entry]
  cases pool.slots[index.toNat]? with
  | none => rfl
  | some found => cases found <;> rfl

theorem textAt_eq (index : UInt16) : textAt slots index = pool.text index := by
  rw [textAt, entryAt_eq fills, Pool.text]
  cases pool.entry index with
  | error fault => rfl
  | ok constant => cases constant <;> rfl

theorem classNameAt_eq (index : UInt16) : classNameAt slots index = pool.className index := by
  rw [classNameAt, entryAt_eq fills, Pool.className]
  cases pool.entry index with
  | error fault => rfl
  | ok constant =>
      cases constant with
      | classInfo nameIndex => exact textAt_eq fills nameIndex
      | _ => rfl

theorem numbered_eq :
    ∃ found, numbered slots = .ok found ∧ found.map (·.2) = pool.constants.map .ofConstant := by
  have each : ∀ entry ∈ slots.zipIdx.filterMap live?,
      (do return (← narrow entry.2, entry.1) : Outcome (UInt16 × Entry)) =
        .ok (UInt16.ofNat entry.2, entry.1) := by
    intro entry live
    obtain ⟨⟨slot, index⟩, place, found⟩ := List.mem_filterMap.mp live
    obtain ⟨value, rfl, rfl⟩ := Option.map_eq_some_iff.mp found
    have inside : index < slots.length := by simpa using List.snd_lt_of_mem_zipIdx place
    rw [narrow_eq (Nat.lt_trans inside fills.small)]
    rfl
  have entries : (slots.zipIdx.filterMap live?).map Prod.fst = slots.filterMap id := by
    have first : (fun slot => (live? slot).map Prod.fst) = id ∘ Prod.fst := by
      funext ⟨slot, index⟩
      cases slot <;> rfl
    rw [List.map_filterMap, first, ← List.filterMap_map, List.zipIdx_map_fst]
  refine ⟨_, mapM_eq each, ?_⟩
  simp only [List.map_map, Function.comp_def]
  rw [entries, fills.entries, loaded, Pool.constants, List.filterMap_map, List.map_filterMap]
  rfl

end LookUpsAgree

end ClassCoupling.Checked
