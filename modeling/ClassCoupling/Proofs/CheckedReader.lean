import ClassCoupling.Proofs.Truncation
import Mathlib.Data.List.Forall2

/-!
Reading by index into an image. Here every operation that has a domain says so: a
difference has to be a natural number, a sum has to fit in a machine word, an index and a
slice have to lie inside of what they are taken from, a copy has to have the length of
what it is copied to. Outside of its domain an operation traps, which is no fault of the
input. A scan reads at an offset into a fixed image and may trap; it agrees with a reader
when from every offset up to the end of the image it does what the reader does with the
bytes from there on. Scans that agree can be put one after the other.
-/
namespace ClassCoupling

/-- How an operation is used outside of its domain. -/
inductive Trap where
  | underflow (left right : Nat)
  | overflow (value limit : Nat)
  | outOfBounds (index length : Nat)
  | unequalLengths (left right : Nat)
  | insideCharacter (position : Nat)
  | recursionTooDeep (depth : Nat)
deriving DecidableEq, Repr

inductive Stop where
  | fault (fault : Fault)
  | trap (trap : Trap)
deriving DecidableEq, Repr

namespace Checked

abbrev Outcome := Except Stop

section Operations

variable {α : Type}

def within (limit value : Nat) : Outcome Nat :=
  if value ≤ limit then .ok value else .error (.trap (.overflow value limit))

def minus (left right : Nat) : Outcome Nat :=
  if right ≤ left then .ok (left - right) else .error (.trap (.underflow left right))

def narrow (value : Nat) : Outcome UInt16 := UInt16.ofNat <$> within 65535 value

def elementAt (items : List α) (index : Nat) : Outcome α :=
  match items[index]? with
  | some item => .ok item
  | none => .error (.trap (.outOfBounds index items.length))

def replace (items : List α) (index : Nat) (item : α) : Outcome (List α) :=
  if index < items.length then .ok (items.set index item)
  else .error (.trap (.outOfBounds index items.length))

def slice (items : List α) (start stop : Nat) : Outcome (List α) :=
  if stop ≤ items.length then
    if start ≤ stop then .ok ((items.take stop).drop start)
    else .error (.trap (.underflow stop start))
  else .error (.trap (.outOfBounds stop items.length))

def copy (width : Nat) (items : List α) : Outcome (List α) :=
  if items.length = width then .ok items
  else .error (.trap (.unequalLengths items.length width))

def ofResult : Except Fault α → Outcome α := Except.mapError .fault

theorem ofResult_bind {β : Type} (result : Except Fault α) (next : α → Except Fault β) :
    ofResult (result >>= next) = ofResult result >>= fun value => ofResult (next value) := by
  cases result <;> rfl

theorem ofResult_map {β : Type} (make : α → β) (result : Except Fault α) :
    ofResult (make <$> result) = make <$> ofResult result := by
  cases result <;> rfl

theorem within_eq {limit value : Nat} (fits : value ≤ limit) : within limit value = .ok value :=
  if_pos fits

theorem minus_eq {left right : Nat} (least : right ≤ left) :
    minus left right = .ok (left - right) :=
  if_pos least

theorem narrow_eq {value : Nat} (small : value < 65536) :
    narrow value = .ok (UInt16.ofNat value) := by
  rw [narrow, within_eq (by omega)]
  rfl

theorem elementAt_eq {items : List α} {index : Nat} {item : α} (found : items[index]? = some item) :
    elementAt items index = .ok item := by
  rw [elementAt, found]

theorem replace_eq {items : List α} {index : Nat} (inside : index < items.length) (item : α) :
    replace items index item = .ok (items.set index item) :=
  if_pos inside

theorem slice_eq {items : List α} {start stop : Nat} (order : start ≤ stop)
    (inside : stop ≤ items.length) :
    slice items start stop = .ok ((items.take stop).drop start) := by
  rw [slice, if_pos inside, if_pos order]

theorem copy_eq {width : Nat} {items : List α} (length : items.length = width) :
    copy width items = .ok items :=
  if_pos length

theorem mapM_of_forall₂ {ε β : Type} {step : α → Except ε β} {items : List α} {values : List β}
    (each : List.Forall₂ (fun item value => step item = .ok value) items values) :
    items.mapM step = .ok values := by
  induction each with
  | nil => rfl
  | cons first _ ih =>
      rw [List.mapM_cons, first, ih]
      rfl

theorem mapM_eq {ε β : Type} {step : α → Except ε β} {value : α → β} {items : List α}
    (each : ∀ item ∈ items, step item = .ok (value item)) :
    items.mapM step = .ok (items.map value) :=
  mapM_of_forall₂ (List.forall₂_map_right_iff.mpr (List.forall₂_same.mpr each))

theorem mapM_ofResult {β γ : Type} {step : γ → Outcome β} {fetch : α → Except Fault β}
    {items : List α} {others : List γ}
    (each : List.Forall₂ (fun item other => step other = ofResult (fetch item)) items others) :
    others.mapM step = ofResult (items.mapM fetch) := by
  induction each with
  | nil => rfl
  | cons first _ ih =>
      rw [List.mapM_cons, List.mapM_cons, first, ih, ofResult_bind]
      refine bind_congr fun value => ?_
      rw [ofResult_bind]
      rfl

theorem mapM_elementAt {items : List α} {count : Nat} (enough : count ≤ items.length) :
    (List.range count).mapM (elementAt items) = .ok (items.take count) := by
  induction count with
  | zero => simp [pure, Except.pure]
  | succ count ih =>
      have inside : items[count]? = some items[count] := List.getElem?_eq_getElem enough
      rw [List.range_succ, List.mapM_append, ih (by omega), List.mapM_cons, elementAt_eq inside,
        List.take_add_one, inside]
      rfl

end Operations

/-- A read moves the offset; where it stopped is known also of a read that fails. -/
abbrev Scan := EStateM Stop Nat

namespace Scan

variable {α β : Type}

def lift : Outcome α → Scan α
  | .ok value => pure value
  | .error stop => throw stop

@[simp] theorem lift_ok_bind (value : α) (next : α → Scan β) :
    (lift (.ok value) >>= next) = next value := rfl

def manyAfter (item : Scan α) : Nat → List α → Scan (List α)
  | 0, found => pure found.reverse
  | count + 1, found => do
      let next ← item
      manyAfter item count (next :: found)

def run (scan : Scan α) : Outcome α :=
  match scan 0 with
  | .ok value _ => .ok value
  | .error stop _ => .error stop

section Fields

variable (limit : Nat) (image : List UInt8)

def take (count : Nat) : Scan (List UInt8) := do
  let offset ← get
  let left ← lift (minus image.length offset)
  if left < count then throw (.fault (.truncated offset count))
  else
    let stop ← lift (within limit (offset + count))
    let bytes ← lift (slice image offset stop)
    set stop
    return bytes

def skip (count : Nat) : Scan Unit := do
  let _ ← take limit image count

def unsigned (width : Nat) : Scan Nat := do
  let bytes ← take limit image width
  return bigEndian (← lift ((List.range width).mapM (elementAt bytes)))

def u8 : Scan UInt8 := do return UInt8.ofNat (← unsigned limit image 1)
def u16 : Scan UInt16 := do return UInt16.ofNat (← unsigned limit image 2)
def u32 : Scan UInt32 := do return UInt32.ofNat (← unsigned limit image 4)

def u64 : Scan UInt64 := do
  let bytes ← take limit image 8
  return UInt64.ofNat (bigEndian (← lift (copy 8 bytes)))

def i32 : Scan Int32 := do return (← u32 limit image).toInt32
def i64 : Scan Int64 := do return (← u64 limit image).toInt64

def counted (item : Scan α) : Scan (List α) := do
  let count ← u16 limit image
  manyAfter item count.toNat []

end Fields

section Taking

variable {limit offset count : Nat} {image : List UInt8}

theorem take_apply : take limit image count offset =
    (lift (minus image.length offset) >>= fun left =>
      if left < count then throw (.fault (.truncated offset count))
      else do
        let stop ← lift (within limit (offset + count))
        let bytes ← lift (slice image offset stop)
        set stop
        return bytes) offset :=
  rfl

theorem take_of_le (inside : offset ≤ image.length) (enough : offset + count ≤ image.length)
    (fits : image.length ≤ limit) :
    take limit image count offset = .ok ((image.drop offset).take count) (offset + count) := by
  -- What is left is asked for before the sum is made, so where the image fits in memory the sum
  -- does.
  have left : ¬ image.length - offset < count := by omega
  have bytes : slice image offset (offset + count) = .ok ((image.drop offset).take count) := by
    rw [slice_eq (Nat.le_add_right offset count) enough, List.drop_take, Nat.add_sub_cancel_left]
  rw [take_apply, minus_eq inside, lift_ok_bind, if_neg left,
    within_eq (Nat.le_trans enough fits), lift_ok_bind, bytes]
  rfl

theorem take_of_lt (inside : offset ≤ image.length) (short : image.length < offset + count) :
    take limit image count offset = .error (.fault (.truncated offset count)) offset := by
  have left : image.length - offset < count := by omega
  rw [take_apply, minus_eq inside, lift_ok_bind, if_pos left]
  rfl

-- Past the end of the image there is nothing that could be left.
example : take 255 [0xCA, 0xFE] 1 3 = .error (.trap (.underflow 2 3)) 3 := rfl

end Taking

end Scan

/-- The largest word counts the bytes of the image and holds every number of four bytes. -/
structure Addressable (limit : Nat) (image : List UInt8) : Prop where
  length : image.length ≤ limit
  word : 4294967295 ≤ limit

/-- From every offset in the image a scan does what a reader does with the bytes from there
on: it gives a related value and stops at the same place, or fails with the same fault. -/
structure Agrees {α β : Type} (image : List UInt8) (scan : Scan β) (reader : Reader α)
    (related : α → β → Prop) : Prop where
  values : ∀ {offset value after}, offset ≤ image.length →
    reader ⟨offset, image.drop offset⟩ = .ok value after →
    ∃ found stop, after = ⟨stop, image.drop stop⟩ ∧ stop ≤ image.length ∧
      scan offset = .ok found stop ∧ related value found
  faults : ∀ {offset fault after}, offset ≤ image.length →
    reader ⟨offset, image.drop offset⟩ = .error fault after →
    scan offset = .error (.fault fault) after.offset

namespace Agrees

variable {α β γ δ : Type} {image : List UInt8} {scan : Scan β} {reader : Reader α}
  {related : α → β → Prop}

theorem pure {value : α} {found : β} (same : related value found) :
    Agrees image (pure found) (pure value) related where
  values := by
    intro offset result after inside read
    obtain ⟨rfl, rfl⟩ := Reader.pure_eq_ok_iff.mp read
    exact ⟨found, offset, rfl, inside, rfl, same⟩
  faults := by
    intro offset fault after inside read
    cases read

theorem fault (fault : Fault) : Agrees image (throw (.fault fault)) (throw fault) related where
  values := by
    intro offset value after inside read
    exact absurd read Reader.throw_ne_ok
  faults := by
    intro offset other after inside read
    cases read
    rfl

theorem bind {next : β → Scan δ} {after : α → Reader γ} {final : γ → δ → Prop}
    (first : Agrees image scan reader related)
    (following : ∀ {value found}, related value found →
      Agrees image (next found) (after value) final) :
    Agrees image (scan >>= next) (reader >>= after) final where
  values := by
    intro offset value cursor inside read
    obtain ⟨given, middle, start, finish⟩ := Reader.bind_eq_ok_iff.mp read
    obtain ⟨found, place, rfl, within, scanned, same⟩ := first.values inside start
    simpa only [Bind.bind, EStateM.bind, scanned] using (following same).values within finish
  faults := by
    intro offset fault cursor inside read
    obtain failed | ⟨given, middle, start, finish⟩ := Reader.bind_eq_error_iff.mp read
    · simp only [Bind.bind, EStateM.bind, first.faults inside failed]
    · obtain ⟨found, place, rfl, within, scanned, same⟩ := first.values inside start
      simpa only [Bind.bind, EStateM.bind, scanned] using (following same).faults within finish

theorem map {make : α → γ} {change : β → δ} {final : γ → δ → Prop}
    (agrees : Agrees image scan reader related)
    (implies : ∀ {value found}, related value found → final (make value) (change found)) :
    Agrees image (do return change (← scan)) (do return make (← reader)) final :=
  agrees.bind fun same => .pure (implies same)

theorem transform {scan : Scan α} (agrees : Agrees image scan reader Eq) (make : α → γ) :
    Agrees image (do return make (← scan)) (do return make (← reader)) Eq :=
  agrees.map (congrArg make)

theorem lookUp {result : Except Fault γ} {next : γ → Scan β} {after : γ → Reader α}
    (following : ∀ {found}, result = .ok found → Agrees image (next found) (after found) related) :
    Agrees image (Scan.lift (ofResult result) >>= next) (Reader.lift result >>= after) related := by
  cases result with
  | ok found => exact following rfl
  | error fault =>
      have failed : Agrees image (throw (.fault fault)) (throw fault) fun (_ _ : γ) => False :=
        .fault fault
      exact failed.bind False.elim

theorem offset : Agrees image get Reader.offset Eq where
  values := by
    intro offset value after inside read
    cases read
    exact ⟨offset, offset, rfl, inside, rfl, rfl⟩
  faults := by
    intro offset fault after inside read
    cases read

theorem manyAfter (agrees : Agrees image scan reader related) (count : Nat) {earlier : List α}
    {found : List β} (same : List.Forall₂ related earlier found) :
    Agrees image (scan.manyAfter count found) (reader.manyAfter count earlier)
      (List.Forall₂ related) := by
  induction count generalizing earlier found with
  | zero => exact .pure (List.rel_reverse same)
  | succ count ih => exact agrees.bind fun first => ih (.cons first same)

theorem run (agrees : Agrees image scan reader related) :
    (∃ value found, reader.run image = .ok value ∧ scan.run = .ok found ∧ related value found) ∨
      ∃ fault, reader.run image = .error fault ∧ scan.run = .error (.fault fault) := by
  unfold Reader.run Scan.run
  cases result : reader (.ofBytes image) with
  | ok value after =>
      obtain ⟨found, stop, -, -, scanned, same⟩ := agrees.values (Nat.zero_le _) result
      simp [scanned, same]
  | error fault after => simp [agrees.faults (Nat.zero_le _) result]

section Fields

variable {limit : Nat} (fits : Addressable limit image)
include fits

theorem take (count : Nat) :
    Agrees image (Scan.take limit image count) (Reader.take count)
      (fun value found => value = found ∧ found.length = count) where
  values := by
    intro offset value after inside read
    by_cases enough : count ≤ (Cursor.mk offset (image.drop offset)).remaining
    · rw [Reader.take_of_le enough] at read
      cases read
      simp only [Cursor.remaining, List.length_drop] at enough
      have length : ((image.drop offset).take count).length = count := by simp; omega
      refine ⟨_, offset + count, by rw [List.drop_drop], by omega, ?_, rfl, length⟩
      exact Scan.take_of_le inside (by omega) fits.length
    · rw [Reader.take_of_lt (Nat.lt_of_not_le enough)] at read
      cases read
  faults := by
    intro offset fault after inside read
    by_cases enough : count ≤ (Cursor.mk offset (image.drop offset)).remaining
    · rw [Reader.take_of_le enough] at read
      cases read
    · rw [Reader.take_of_lt (Nat.lt_of_not_le enough)] at read
      cases read
      simp only [Cursor.remaining, List.length_drop] at enough
      exact Scan.take_of_lt inside (by omega)

theorem skip (count : Nat) :
    Agrees image (Scan.skip limit image count) (Reader.skip count) Eq :=
  (take fits count).bind fun _ => .pure rfl

theorem unsigned (width : Nat) :
    Agrees image (Scan.unsigned limit image width) (Reader.unsigned width) Eq := by
  refine (take fits width).bind ?_
  rintro bytes _ ⟨rfl, length⟩
  rw [mapM_elementAt (Nat.le_of_eq length.symm), ← length, List.take_length]
  exact .pure rfl

theorem u8 : Agrees image (Scan.u8 limit image) Reader.u8 Eq :=
  (unsigned fits 1).transform UInt8.ofNat

theorem u16 : Agrees image (Scan.u16 limit image) Reader.u16 Eq :=
  (unsigned fits 2).transform UInt16.ofNat

theorem u32 : Agrees image (Scan.u32 limit image) Reader.u32 Eq :=
  (unsigned fits 4).transform UInt32.ofNat

theorem u64 : Agrees image (Scan.u64 limit image) Reader.u64 Eq := by
  rw [Reader.u64, Reader.unsigned, bind_assoc]
  refine (take fits 8).bind ?_
  rintro bytes _ ⟨rfl, length⟩
  rw [copy_eq length]
  exact .pure rfl

theorem i32 : Agrees image (Scan.i32 limit image) Reader.i32 Eq :=
  (u32 fits).transform UInt32.toInt32

theorem i64 : Agrees image (Scan.i64 limit image) Reader.i64 Eq :=
  (u64 fits).transform UInt64.toInt64

theorem counted (agrees : Agrees image scan reader related) :
    Agrees image (scan.counted limit image) reader.counted (List.Forall₂ related) := by
  refine (u16 fits).bind ?_
  rintro count _ rfl
  exact agrees.manyAfter count.toNat .nil

end Fields

end Agrees

end Checked

end ClassCoupling
