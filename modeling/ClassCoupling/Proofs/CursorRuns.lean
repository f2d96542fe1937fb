import ClassCoupling.Proofs.CheckedReader

/-!
Runs of a cursor. An operation asks for one field; a run is a list of operations, each
from where the one before it left the cursor, and it goes on behind an operation that
fails. Every operation takes a slice of a fixed width and turns it into a value, so what
a step does is said once for all of them. Over a run the cursor stays in the data, the
slices lie one behind the other, and fields that are spelled back to back are read back.
-/
namespace ClassCoupling

theorem Reader.Exact.eq_encode_iff {α : Type} {item : Reader α} {encode : α → List UInt8}
    (exact : Exact item encode fun _ => True) {width : Nat} {make : List UInt8 → α}
    (reads : item = take width >>= fun slice => pure (make slice)) {value : α}
    {slice : List UInt8} :
    slice = encode value ↔ slice.length = width ∧ make slice = value := by
  constructor
  · rintro rfl
    have accepted : item ⟨0, encode value ++ []⟩ = .ok value ⟨0 + (encode value).length, []⟩ :=
      exact.accepts trivial 0 []
    rw [reads, List.append_nil] at accepted
    obtain ⟨chunk, rest, length, split, done⟩ := (take_exact width).bind_inverts accepted
    obtain ⟨made, here⟩ := pure_eq_ok_iff.mp done
    obtain rfl : rest = [] := congrArg Cursor.rest here
    rw [split, List.append_nil]
    exact ⟨length, made⟩
  · rintro ⟨length, made⟩
    have accepted : item ⟨0, slice ++ []⟩ = .ok value ⟨0 + slice.length, []⟩ := by
      rw [reads, (take_exact width).bind_accepts length, made]
      rfl
    have spelled := (exact.inverts accepted).2.1
    rwa [List.append_nil, List.append_nil] at spelled

theorem Checked.Agrees.weaken {α β : Type} {image : List UInt8} {scan : Scan β}
    {reader : Reader α} {related weaker : α → β → Prop} (agrees : Agrees image scan reader related)
    (implies : ∀ {value found}, related value found → weaker value found) :
    Agrees image scan reader weaker where
  values := by
    intro offset value after inside read
    obtain ⟨found, stop, place, within, scanned, same⟩ := agrees.values inside read
    exact ⟨found, stop, place, within, scanned, implies same⟩
  faults := agrees.faults

namespace Cursor

inductive Operation where
  | u8 | u16 | u32 | u64 | i32 | i64 | f32 | f64
  | bytes (count : Nat)
  | skip (count : Nat)
deriving DecidableEq, Repr

namespace Operation

/-- What an operation gives; a floating-point number is its bit pattern. -/
abbrev Value : Operation → Type
  | u8 => UInt8
  | u16 => UInt16
  | u32 | f32 => UInt32
  | u64 | f64 => UInt64
  | i32 => Int32
  | i64 => Int64
  | bytes _ => List UInt8
  | skip _ => Unit

def width : Operation → Nat
  | u8 => 1
  | u16 => 2
  | u32 | i32 | f32 => 4
  | u64 | i64 | f64 => 8
  | bytes count | skip count => count

def read : (operation : Operation) → Reader operation.Value
  | u8 => Reader.u8
  | u16 => Reader.u16
  | u32 | f32 => Reader.u32
  | u64 | f64 => Reader.u64
  | i32 => Reader.i32
  | i64 => Reader.i64
  | bytes count => Reader.take count
  | skip count => Reader.skip count

def twosComplement (width : Nat) (value : Int) : Nat :=
  (value % (Nat.pow 256 width : Nat)).toNat

/-- The bytes are those of a value: its digits with the most significant first, where a signed
number stands as its two's complement. What is passed over is any bytes of the right number. -/
def Spells : (operation : Operation) → operation.Value → List UInt8 → Prop
  | u8, value, slice => slice = [value]
  | u16, value, slice => slice = u16Bytes value
  | u32, value, slice | f32, value, slice => slice = u32Bytes value
  | u64, value, slice | f64, value, slice => slice = u64Bytes value
  | i32, value, slice => slice = bigEndianBytes 4 (twosComplement 4 value.toInt)
  | i64, value, slice => slice = bigEndianBytes 8 (twosComplement 8 value.toInt)
  | bytes count, value, slice => slice = value ∧ value.length = count
  | skip count, _, slice => slice.length = count

def valueOf : (operation : Operation) → List UInt8 → operation.Value
  | u8, slice => UInt8.ofNat (bigEndian slice)
  | u16, slice => UInt16.ofNat (bigEndian slice)
  | u32, slice | f32, slice => UInt32.ofNat (bigEndian slice)
  | u64, slice | f64, slice => UInt64.ofNat (bigEndian slice)
  | i32, slice => (UInt32.ofNat (bigEndian slice)).toInt32
  | i64, slice => (UInt64.ofNat (bigEndian slice)).toInt64
  | bytes _, slice => slice
  | skip _, _ => ()

theorem read_eq (operation : Operation) :
    operation.read =
      Reader.take operation.width >>= fun slice => pure (operation.valueOf slice) := by
  cases operation with
  | bytes count => exact (bind_pure (Reader.take count)).symm
  | skip count => rfl
  | _ =>
      simp only [read, width, valueOf, Reader.u8, Reader.u16, Reader.u32, Reader.u64, Reader.i32,
        Reader.i64, Reader.unsigned, bind_assoc, pure_bind]

theorem twosComplement_toInt {width : Nat} (word : BitVec (8 * width)) :
    twosComplement width word.toInt = word.toNat := by
  have power : Nat.pow 2 (8 * width) = Nat.pow 256 width := Nat.pow_mul 2 8 width
  have small : word.toNat < Nat.pow 256 width := power ▸ word.isLt
  have residue : word.toInt % (Nat.pow 256 width : Nat) =
      (word.toNat : Int) % (Nat.pow 256 width : Nat) := by
    rw [BitVec.toInt_eq_toNat_bmod, ← power]
    exact Int.bmod_emod
  rw [twosComplement, residue, ← Int.natCast_emod, Int.toNat_natCast, Nat.mod_eq_of_lt small]

theorem spells_iff {operation : Operation} {value : operation.Value} {slice : List UInt8} :
    operation.Spells value slice ↔
      slice.length = operation.width ∧ operation.valueOf slice = value := by
  -- The encodings of numbers are exact already; only signed ones are spelled another way here.
  cases operation with
  | u8 => exact Reader.u8_exact.eq_encode_iff (read_eq u8)
  | u16 => exact Reader.u16_exact.eq_encode_iff (read_eq u16)
  | u32 => exact Reader.u32_exact.eq_encode_iff (read_eq u32)
  | f32 => exact Reader.u32_exact.eq_encode_iff (read_eq f32)
  | u64 => exact Reader.u64_exact.eq_encode_iff (read_eq u64)
  | f64 => exact Reader.u64_exact.eq_encode_iff (read_eq f64)
  | i32 =>
      have digits : twosComplement 4 value.toInt = value.toUInt32.toNat :=
        @twosComplement_toInt 4 value.toBitVec
      rw [Spells, digits]
      exact Reader.i32_exact.eq_encode_iff (read_eq i32)
  | i64 =>
      have digits : twosComplement 8 value.toInt = value.toUInt64.toNat :=
        @twosComplement_toInt 8 value.toBitVec
      rw [Spells, digits]
      exact Reader.i64_exact.eq_encode_iff (read_eq i64)
  | bytes count =>
      constructor
      · rintro ⟨rfl, length⟩
        exact ⟨length, rfl⟩
      · rintro ⟨length, rfl⟩
        exact ⟨rfl, length⟩
  | skip count => exact (and_iff_left rfl).symm

theorem read_of_le {operation : Operation} {cursor : Cursor}
    (enough : operation.width ≤ cursor.remaining) :
    operation.read cursor =
      .ok (operation.valueOf (cursor.rest.take operation.width))
        ⟨cursor.offset + operation.width, cursor.rest.drop operation.width⟩ := by
  rw [read_eq, Reader.bind_of_ok (Reader.take_of_le enough)]
  rfl

theorem read_of_lt {operation : Operation} {cursor : Cursor}
    (short : cursor.remaining < operation.width) :
    operation.read cursor = .error (.truncated cursor.offset operation.width) cursor := by
  rw [read_eq]
  exact Reader.bind_of_error (Reader.take_of_lt short)

theorem remaining_of_ok {operation : Operation} {cursor after : Cursor} {value : operation.Value}
    (read : operation.read cursor = .ok value after) :
    after.remaining + operation.width = cursor.remaining := by
  by_cases enough : operation.width ≤ cursor.remaining
  · rw [read_of_le enough] at read
    cases read
    rw [remaining, List.length_drop]
    exact Nat.sub_add_cancel enough
  · rw [read_of_lt (Nat.lt_of_not_le enough)] at read
    cases read

theorem eq_of_error {operation : Operation} {cursor stop : Cursor} {fault : Fault}
    (failed : operation.read cursor = .error fault stop) : stop = cursor := by
  by_cases enough : operation.width ≤ cursor.remaining
  · rw [read_of_le enough] at failed
    cases failed
  · rw [read_of_lt (Nat.lt_of_not_le enough)] at failed
    cases failed
    rfl

def act (operation : Operation) (cursor : Cursor) : Except Fault operation.Value × Cursor :=
  match operation.read cursor with
  | .ok value after => (.ok value, after)
  | .error fault after => (.error fault, after)

theorem act_of_ok {operation : Operation} {cursor after : Cursor} {value : operation.Value}
    (read : operation.read cursor = .ok value after) :
    operation.act cursor = (.ok value, after) := by
  rw [act, read]

theorem act_of_error {operation : Operation} {cursor after : Cursor} {fault : Fault}
    (failed : operation.read cursor = .error fault after) :
    operation.act cursor = (.error fault, after) := by
  rw [act, failed]

theorem Spells.read_eq {operation : Operation} {value : operation.Value} {slice : List UInt8}
    (spells : operation.Spells value slice) (offset : Nat) (rest : List UInt8) :
    operation.read ⟨offset, slice ++ rest⟩ = .ok value ⟨offset + slice.length, rest⟩ := by
  obtain ⟨length, rfl⟩ := spells_iff.mp spells
  rw [Operation.read_eq, (Reader.take_exact operation.width).bind_accepts length]
  rfl

/-- The operation by index into an image, in words up to a limit. -/
def scan (limit : Nat) (image : List UInt8) :
    (operation : Operation) → Checked.Scan operation.Value
  | u8 => Checked.Scan.u8 limit image
  | u16 => Checked.Scan.u16 limit image
  | u32 | f32 => Checked.Scan.u32 limit image
  | u64 | f64 => Checked.Scan.u64 limit image
  | i32 => Checked.Scan.i32 limit image
  | i64 => Checked.Scan.i64 limit image
  | bytes count => Checked.Scan.take limit image count
  | skip count => Checked.Scan.skip limit image count

theorem scan_agrees {limit : Nat} {image : List UInt8} (fits : Checked.Addressable limit image)
    (operation : Operation) :
    Checked.Agrees image (operation.scan limit image) operation.read Eq := by
  cases operation with
  | u8 => exact .u8 fits
  | u16 => exact .u16 fits
  | u32 => exact .u32 fits
  | f32 => exact .u32 fits
  | u64 => exact .u64 fits
  | f64 => exact .u64 fits
  | i32 => exact .i32 fits
  | i64 => exact .i64 fits
  | bytes count => exact (Checked.Agrees.take fits count).weaken And.left
  | skip count => exact .skip fits count

end Operation

structure Step where
  operation : Operation
  before : Cursor
  result : Except Fault operation.Value
  after : Cursor

def Operation.step (operation : Operation) (cursor : Cursor) : Step :=
  ⟨operation, cursor, (operation.act cursor).1, (operation.act cursor).2⟩

/-- The steps of a run; one that fails does not end it. -/
def steps (cursor : Cursor) : List Operation → List Step
  | [] => []
  | operation :: operations =>
      operation.step cursor :: steps (operation.step cursor).after operations

def reached (cursor : Cursor) (operations : List Operation) : Cursor :=
  operations.foldl (fun place operation => (operation.step place).after) cursor

theorem reached_cons (cursor : Cursor) (operation : Operation) (operations : List Operation) :
    reached cursor (operation :: operations) = reached (operation.step cursor).after operations :=
  rfl

theorem step_of_lt {operation : Operation} {cursor : Cursor}
    (short : cursor.remaining < operation.width) :
    operation.step cursor =
      ⟨operation, cursor, .error (.truncated cursor.offset operation.width), cursor⟩ := by
  rw [Operation.step, Operation.act_of_error (Operation.read_of_lt short)]

theorem step_cases (operation : Operation) (cursor : Cursor) :
    (∃ value slice rest, operation.Spells value slice ∧ cursor.rest = slice ++ rest ∧
      operation.step cursor =
        ⟨operation, cursor, .ok value, ⟨cursor.offset + slice.length, rest⟩⟩) ∨
    (cursor.remaining < operation.width ∧ operation.step cursor =
      ⟨operation, cursor, .error (.truncated cursor.offset operation.width), cursor⟩) := by
  by_cases enough : operation.width ≤ cursor.remaining
  · have length : (cursor.rest.take operation.width).length = operation.width :=
      List.length_take_of_le enough
    refine .inl ⟨_, _, _, Operation.spells_iff.mpr ⟨length, rfl⟩,
      (List.take_append_drop operation.width cursor.rest).symm, ?_⟩
    rw [Operation.step, Operation.act_of_ok (Operation.read_of_le enough), length]
  · have short : cursor.remaining < operation.width := Nat.lt_of_not_le enough
    exact .inr ⟨short, step_of_lt short⟩

theorem map_operation_steps (cursor : Cursor) (operations : List Operation) :
    (steps cursor operations).map Step.operation = operations := by
  induction operations generalizing cursor with
  | nil => rfl
  | cons operation operations ih => rw [steps, List.map_cons, ih]; rfl

theorem steps_append (cursor : Cursor) (front back : List Operation) :
    steps cursor (front ++ back) = steps cursor front ++ steps (reached cursor front) back := by
  induction front generalizing cursor with
  | nil => rfl
  | cons operation front ih => rw [List.cons_append, steps, ih]; rfl

theorem isChain_steps (cursor : Cursor) (operations : List Operation) :
    (steps cursor operations).IsChain (fun earlier later => earlier.after = later.before) := by
  induction operations generalizing cursor with
  | nil => exact .nil
  | cons operation operations ih =>
      rw [steps]
      cases operations with
      | nil => exact .singleton _
      | cons next operations => exact .cons_cons rfl (ih _)

/-- The cursor has what lies behind it in its offset and all else still ahead. -/
def StandsIn (data : List UInt8) (cursor : Cursor) : Prop :=
  ∃ behind, data = behind ++ cursor.rest ∧ cursor.offset = behind.length

namespace StandsIn

variable {data : List UInt8} {cursor : Cursor}

theorem ofBytes (data : List UInt8) : StandsIn data (ofBytes data) := ⟨[], rfl, rfl⟩

theorem offset_add_remaining (stands : StandsIn data cursor) :
    cursor.offset + cursor.remaining = data.length := by
  obtain ⟨behind, rfl, offset⟩ := stands
  rw [offset, remaining, List.length_append]

theorem after_step (stands : StandsIn data cursor) (operation : Operation) :
    StandsIn data (operation.step cursor).after := by
  obtain ⟨value, slice, rest, -, split, taken⟩ | ⟨-, failed⟩ := step_cases operation cursor
  · obtain ⟨behind, whole, offset⟩ := stands
    rw [taken]
    refine ⟨behind ++ slice, ?_, ?_⟩
    · rw [whole, split, List.append_assoc]
    · rw [offset, List.length_append]
  · rw [failed]
    exact stands

theorem after_run (stands : StandsIn data cursor) (operations : List Operation) :
    StandsIn data (reached cursor operations) := by
  induction operations generalizing cursor with
  | nil => exact stands
  | cons operation operations ih => exact ih (stands.after_step operation)

theorem extract_eq (stands : StandsIn data cursor) {slice rest : List UInt8}
    (split : cursor.rest = slice ++ rest) :
    data.extract cursor.offset (cursor.offset + slice.length) = slice := by
  obtain ⟨behind, rfl, offset⟩ := stands
  rw [List.extract_eq_take_drop, offset, split, Nat.add_sub_cancel_left, List.drop_left,
    List.take_left]

end StandsIn

def Step.taken (data : List UInt8) (step : Step) : List UInt8 :=
  data.extract step.before.offset step.after.offset

/-- A step over some data: the cursor stays in them, the step fails exactly where too few bytes
are left and then moves nothing, else it gives the value of the bytes that it passes. -/
structure Step.Lawful (data : List UInt8) (step : Step) : Prop where
  before : step.before.offset + step.before.remaining = data.length
  after : step.after.offset + step.after.remaining = data.length
  fails_iff : (∃ fault, step.result = .error fault) ↔
    step.before.remaining < step.operation.width
  fails : ∀ fault, step.result = .error fault →
    fault = .truncated step.before.offset step.operation.width ∧ step.after = step.before
  gives : ∀ value, step.result = .ok value →
    step.operation.Spells value (step.taken data) ∧
      step.after.offset = step.before.offset + step.operation.width

theorem StandsIn.lawful {data : List UInt8} {cursor : Cursor} (stands : StandsIn data cursor)
    (operation : Operation) : (operation.step cursor).Lawful data := by
  have behind := (stands.after_step operation).offset_add_remaining
  obtain ⟨value, slice, rest, spells, split, taken⟩ | ⟨short, failed⟩ := step_cases operation cursor
  · have length : slice.length = operation.width := (Operation.spells_iff.mp spells).1
    have enough : ¬ cursor.remaining < operation.width := by
      rw [remaining, split, List.length_append]
      omega
    rw [taken] at behind ⊢
    refine ⟨stands.offset_add_remaining, behind, iff_of_false (by simp) enough, by simp, ?_⟩
    rintro value ⟨rfl⟩
    rw [Step.taken, stands.extract_eq split, length]
    exact ⟨spells, rfl⟩
  · rw [failed] at behind ⊢
    refine ⟨behind, behind, iff_of_true ⟨_, rfl⟩ short, ?_, by simp⟩
    rintro fault ⟨rfl⟩
    exact ⟨rfl, rfl⟩

theorem StandsIn.forall_steps {data : List UInt8} {holds : Step → Prop}
    (each : ∀ {cursor}, StandsIn data cursor →
      ∀ operation : Operation, holds (operation.step cursor))
    {cursor : Cursor} (stands : StandsIn data cursor) (operations : List Operation) :
    ∀ step ∈ steps cursor operations, holds step := by
  induction operations generalizing cursor with
  | nil => simp [steps]
  | cons operation operations ih =>
      rw [steps, List.forall_mem_cons]
      exact ⟨each stands operation, ih (stands.after_step operation)⟩

theorem StandsIn.rest_eq {data : List UInt8} {cursor : Cursor} (stands : StandsIn data cursor)
    (operations : List Operation) :
    cursor.rest =
      (steps cursor operations).flatMap (Step.taken data) ++ (reached cursor operations).rest := by
  induction operations generalizing cursor with
  | nil => rfl
  | cons operation operations ih =>
      -- A step that fails stops where it starts, so the part that it passes is empty.
      have others := ih (stands.after_step operation)
      rw [steps, List.flatMap_cons, List.append_assoc, reached_cons, ← others]
      obtain ⟨value, slice, rest, -, split, taken⟩ | ⟨-, failed⟩ := step_cases operation cursor
      · rw [taken, Step.taken, stands.extract_eq split, split]
      · rw [failed, Step.taken]
        simp

theorem flatMap_taken_steps (data : List UInt8) (operations : List Operation) :
    (steps (ofBytes data) operations).flatMap (Step.taken data) =
      data.take (reached (ofBytes data) operations).offset := by
  have passed : data = _ ++ _ := (StandsIn.ofBytes data).rest_eq operations
  obtain ⟨behind, whole, offset⟩ := (StandsIn.ofBytes data).after_run operations
  have front : behind = (steps (ofBytes data) operations).flatMap (Step.taken data) :=
    List.append_cancel_right (whole.symm.trans passed)
  have begins : data.take behind.length = behind := by
    rw [whole, List.take_left]
  rw [offset, begins, front]

structure Field where
  operation : Operation
  value : operation.Value
  bytes : List UInt8
  spells : operation.Spells value bytes

def Step.outcome (step : Step) : (operation : Operation) × Except Fault operation.Value :=
  ⟨step.operation, step.result⟩

theorem steps_fields (fields : List Field) (offset : Nat) (rest : List UInt8) :
    (steps ⟨offset, fields.flatMap Field.bytes ++ rest⟩ (fields.map Field.operation)).map
        Step.outcome = fields.map (fun field => ⟨field.operation, .ok field.value⟩) ∧
      reached ⟨offset, fields.flatMap Field.bytes ++ rest⟩ (fields.map Field.operation) =
        ⟨offset + (fields.flatMap Field.bytes).length, rest⟩ := by
  induction fields generalizing offset with
  | nil => exact ⟨rfl, rfl⟩
  | cons field fields ih =>
      obtain ⟨outcomes, stop⟩ := ih (offset + field.bytes.length)
      have first := field.spells.read_eq offset (fields.flatMap Field.bytes ++ rest)
      have taken : field.operation.step
          ⟨offset, field.bytes ++ (fields.flatMap Field.bytes ++ rest)⟩ =
          ⟨field.operation, ⟨offset, field.bytes ++ (fields.flatMap Field.bytes ++ rest)⟩,
            .ok field.value,
            ⟨offset + field.bytes.length, fields.flatMap Field.bytes ++ rest⟩⟩ := by
        rw [Operation.step, Operation.act_of_ok first]
      rw [List.flatMap_cons, List.append_assoc, List.map_cons, List.map_cons, steps,
        reached_cons, taken, stop, List.map_cons, outcomes, List.length_append, Nat.add_assoc]
      exact ⟨rfl, rfl⟩

def Step.byIndex (step : Step) : EStateM.Result Stop Nat step.operation.Value :=
  match step.result with
  | .ok value => .ok value step.after.offset
  | .error fault => .error (.fault fault) step.after.offset

theorem StandsIn.scan_step {data : List UInt8} {cursor : Cursor} (stands : StandsIn data cursor)
    {limit : Nat} (fits : Checked.Addressable limit data) (operation : Operation) :
    (operation.step cursor).operation.scan limit data (operation.step cursor).before.offset =
      (operation.step cursor).byIndex := by
  have inside : cursor.offset ≤ data.length := by
    rw [← stands.offset_add_remaining]
    exact Nat.le_add_right _ _
  have place : cursor = ⟨cursor.offset, data.drop cursor.offset⟩ := by
    obtain ⟨behind, whole, offset⟩ := stands
    rw [offset, whole, List.drop_left, ← offset]
  have agrees := Operation.scan_agrees fits operation
  cases result : operation.read cursor with
  | ok value after =>
      rw [Operation.step, Operation.act_of_ok result]
      rw [place] at result
      obtain ⟨found, stop, rfl, -, scanned, rfl⟩ := agrees.values inside result
      exact scanned
  | error fault after =>
      rw [Operation.step, Operation.act_of_error result]
      rw [place] at result
      exact agrees.faults inside result

/-- The law of a cursor. In every run each step starts where the one before it stopped and is
lawful, and what the steps pass is the data up to where the run stops. A step that fails can be
left out of a run without a change to the others. Fields that are spelled back to back are read
back, whatever follows them. By index, in words of 64 bits, every step does the same. -/
theorem runs_keep_cursor_law :
    (∀ data operations,
      (steps (ofBytes data) operations).map Step.operation = operations ∧
      (steps (ofBytes data) operations).IsChain
        (fun earlier later => earlier.after = later.before) ∧
      (∀ step ∈ steps (ofBytes data) operations, step.Lawful data) ∧
      (steps (ofBytes data) operations).flatMap (Step.taken data) =
        data.take (reached (ofBytes data) operations).offset) ∧
    (∀ data front operation back stop, reached (ofBytes data) front = stop →
      stop.remaining < operation.width →
      steps (ofBytes data) (front ++ operation :: back) = steps (ofBytes data) front ++
        ⟨operation, stop, .error (.truncated stop.offset operation.width), stop⟩ ::
          steps stop back ∧
      steps (ofBytes data) (front ++ back) = steps (ofBytes data) front ++ steps stop back) ∧
    (∀ (fields : List Field) rest,
      (steps (ofBytes (fields.flatMap Field.bytes ++ rest)) (fields.map Field.operation)).map
          Step.outcome = fields.map (fun field => ⟨field.operation, .ok field.value⟩) ∧
        reached (ofBytes (fields.flatMap Field.bytes ++ rest)) (fields.map Field.operation) =
          ⟨(fields.flatMap Field.bytes).length, rest⟩) ∧
    ∀ data : List UInt8, data.length ≤ 18446744073709551615 →
      ∀ operations, ∀ step ∈ steps (ofBytes data) operations,
        step.operation.scan 18446744073709551615 data step.before.offset = step.byIndex := by
  refine ⟨fun data operations => ⟨map_operation_steps _ operations, isChain_steps _ operations,
    (StandsIn.ofBytes data).forall_steps StandsIn.lawful operations,
    flatMap_taken_steps data operations⟩, ?_, ?_, ?_⟩
  · rintro data front operation back stop rfl short
    rw [steps_append, steps_append, steps, step_of_lt short]
    exact ⟨rfl, rfl⟩
  · intro fields rest
    have read := steps_fields fields 0 rest
    rwa [Nat.zero_add] at read
  · intro data small operations
    have fits : Checked.Addressable 18446744073709551615 data := ⟨small, by decide⟩
    exact (StandsIn.ofBytes data).forall_steps (fun stands => stands.scan_step fits) operations

theorem runs_keep_cursor_law_at_word_limit :
    (reached (ofBytes [0, 1, 2]) [.u16]).remaining <
        Operation.width (.bytes 18446744073709551615) ∧
      steps (ofBytes [0, 1, 2]) [.u16, .bytes 18446744073709551615, .u8] =
        [⟨.u16, ⟨0, [0, 1, 2]⟩, .ok 1, ⟨2, [2]⟩⟩,
          ⟨.bytes 18446744073709551615, ⟨2, [2]⟩,
            .error (.truncated 2 18446744073709551615), ⟨2, [2]⟩⟩,
          ⟨.u8, ⟨2, [2]⟩, .ok 2, ⟨3, []⟩⟩] ∧
      [(0 : UInt8), 1, 2].length ≤ 18446744073709551615 ∧
      ∀ step ∈ steps (ofBytes [0, 1, 2]) [.u16, .bytes 18446744073709551615, .u8],
        step.operation.scan 18446744073709551615 [0, 1, 2] step.before.offset = step.byIndex := by
  have short : (Cursor.mk 2 [2]).remaining < Operation.width (.bytes 18446744073709551615) := by
    decide
  have small : [(0 : UInt8), 1, 2].length ≤ 18446744073709551615 := by decide
  obtain ⟨-, failing, -, indexed⟩ := runs_keep_cursor_law
  refine ⟨short, ?_, small, indexed _ small _⟩
  exact (failing [0, 1, 2] [.u16] (.bytes 18446744073709551615) [.u8] ⟨2, [2]⟩ rfl short).1

end Cursor

end ClassCoupling
