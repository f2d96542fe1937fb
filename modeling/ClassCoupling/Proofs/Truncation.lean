import ClassCoupling.ClassFile.Decoder
import ClassCoupling.Proofs.ExactReader

/-!
What readers do with bytes that follow and with bytes that are missing. A reader is
incremental when it uses nothing but the bytes it consumes and asks for each of them
before it goes on. Incremental readers can be put one after the other, so every reader
of the format is one. Bytes behind what was read then change neither a value nor a fault,
and an input that is cut inside of what was read is truncated at the field that the cut
runs through.
-/
namespace ClassCoupling

namespace Reader

variable {α β : Type}

/-- From an offset on, the bytes `used` give a value, whatever stands behind them. -/
def Reads (reader : Reader α) (offset : Nat) (used : List UInt8) (value : α) : Prop :=
  ∀ rest, reader ⟨offset, used ++ rest⟩ = .ok value ⟨offset + used.length, rest⟩

/-- The reader runs out of bytes inside of a field that ends at `limit` or before. -/
def RunsOut (reader : Reader α) (offset : Nat) (bytes : List UInt8) (limit : Nat) : Prop :=
  ∃ place needed stop, reader ⟨offset, bytes⟩ = .error (.truncated place needed) stop ∧
    place ≤ offset + bytes.length ∧ offset + bytes.length < place + needed ∧
    place + needed ≤ limit

structure Incremental (reader : Reader α) : Prop where
  reads : ∀ {offset bytes value stop rest}, reader ⟨offset, bytes⟩ = .ok value ⟨stop, rest⟩ →
    ∃ used, bytes = used ++ rest ∧ stop = offset + used.length ∧ reader.Reads offset used value
  faults : ∀ {offset bytes fault stop}, reader ⟨offset, bytes⟩ = .error fault stop →
    (∀ place needed, fault ≠ .truncated place needed) →
    ∀ tail, reader ⟨offset, bytes ++ tail⟩ = .error fault ⟨stop.offset, stop.rest ++ tail⟩
  runsOut : ∀ {offset front lost value}, reader.Reads offset (front ++ lost) value → lost ≠ [] →
    reader.RunsOut offset front (offset + (front ++ lost).length)

theorem bind_eq_error_iff {item : Reader α} {next : α → Reader β} {cursor stop : Cursor}
    {fault : Fault} :
    (item >>= next) cursor = .error fault stop ↔
      item cursor = .error fault stop ∨
        ∃ first middle, item cursor = .ok first middle ∧
          next first middle = .error fault stop := by
  simp only [bind, EStateM.bind]
  cases item cursor with
  | ok first middle => simp [and_assoc]
  | error fault middle => simp

theorem bind_of_error {item : Reader α} {next : α → Reader β} {cursor stop : Cursor}
    {fault : Fault} (failed : item cursor = .error fault stop) :
    (item >>= next) cursor = .error fault stop :=
  bind_eq_error_iff.mpr (.inl failed)

theorem run_bind_lift {item : Reader α} {next : α → Except Fault β} (bytes : List UInt8) :
    (item >>= fun value => lift (next value)).run bytes = item.run bytes >>= next := by
  unfold run
  simp only [bind, EStateM.bind, Except.bind]
  cases item (.ofBytes bytes) with
  | ok value after =>
      cases found : next value with
      | ok result => simp only [found, lift, pure, EStateM.pure]
      | error fault =>
          simp only [found, lift]
          rfl
  | error fault stop => rfl

theorem Reads.bind {item : Reader α} {next : α → Reader β} {offset : Nat} {front back : List UInt8}
    {first : α} {value : β} (reads : item.Reads offset front first)
    (following : (next first).Reads (offset + front.length) back value) :
    (item >>= next).Reads offset (front ++ back) value := by
  intro rest
  have started := reads (back ++ rest)
  have finished := following rest
  rw [List.append_assoc, bind_of_ok started, finished, List.length_append, Nat.add_assoc]

theorem cut_cases {front lost used others : List UInt8} (split : front ++ lost = used ++ others) :
    (∃ gone, gone ≠ [] ∧ used = front ++ gone) ∨
      ∃ kept, front = used ++ kept ∧ others = kept ++ lost := by
  obtain ⟨gone, same, rest⟩ | ⟨kept, same, rest⟩ := List.append_eq_append_iff.mp split
  · by_cases none : gone = []
    · subst none
      exact .inr ⟨[], by simpa using same.symm, rest.symm⟩
    · exact .inl ⟨gone, none, same⟩
  · exact .inr ⟨kept, same, rest⟩

namespace Incremental

theorem pure (value : α) : Incremental (pure value : Reader α) where
  reads := by
    intro offset bytes result stop rest read
    obtain ⟨rfl, here⟩ := pure_eq_ok_iff.mp read
    cases here
    exact ⟨[], rfl, rfl, fun rest => rfl⟩
  faults := by
    intro offset bytes fault stop failed
    cases failed
  runsOut := by
    intro offset front lost result reads missing
    have here := (pure_eq_ok_iff.mp (reads [])).2
    simp only [List.append_nil, Cursor.mk.injEq, List.append_eq_nil_iff] at here
    exact absurd here.2.2 missing

theorem throw (fault : Fault) : Incremental (throw fault : Reader α) where
  reads := fun read => absurd read throw_ne_ok
  faults := by
    intro offset bytes found stop failed _ tail
    cases failed
    rfl
  runsOut := fun reads _ => absurd (reads []) throw_ne_ok

theorem take (count : Nat) : Incremental (Reader.take count) where
  reads := by
    intro offset bytes chunk stop rest read
    obtain ⟨length, split, stopped⟩ := (take_exact count).inverts read
    exact ⟨chunk, split, stopped, (take_exact count).accepts length offset⟩
  faults := by
    intro offset bytes fault stop failed untruncated
    by_cases enough : count ≤ (Cursor.mk offset bytes).remaining
    · rw [take_of_le enough] at failed
      cases failed
    · rw [take_of_lt (Nat.lt_of_not_le enough)] at failed
      cases failed
      exact absurd rfl (untruncated offset count)
  runsOut := by
    intro offset front lost chunk reads missing
    have whole := (take_exact count).inverts (reads [])
    have length : front.length + lost.length = count := by
      simp only [List.append_nil] at whole
      rw [← List.length_append, whole.2.1, whole.1]
    have positive : 0 < lost.length := List.length_pos_iff.mpr missing
    have short : (Cursor.mk offset front).remaining < count := by
      simp only [Cursor.remaining]
      omega
    refine ⟨offset, count, _, take_of_lt short, ?_⟩
    simp only [List.length_append]
    omega

theorem bind {item : Reader α} {next : α → Reader β} (first : Incremental item)
    (second : ∀ value, Incremental (next value)) : Incremental (item >>= next) where
  reads := by
    intro offset bytes value stop rest read
    obtain ⟨found, ⟨middle, left⟩, started, finished⟩ := bind_eq_ok_iff.mp read
    obtain ⟨front, rfl, rfl, frontReads⟩ := first.reads started
    obtain ⟨back, rfl, rfl, backReads⟩ := (second found).reads finished
    refine ⟨front ++ back, (List.append_assoc ..).symm, ?_, frontReads.bind backReads⟩
    rw [List.length_append, Nat.add_assoc]
  faults := by
    intro offset bytes fault stop failed untruncated tail
    obtain early | ⟨found, ⟨middle, left⟩, started, late⟩ := bind_eq_error_iff.mp failed
    · exact bind_of_error (first.faults early untruncated tail)
    · obtain ⟨front, rfl, rfl, frontReads⟩ := first.reads started
      rw [List.append_assoc, bind_of_ok (frontReads (left ++ tail))]
      exact (second found).faults late untruncated tail
  runsOut := by
    intro offset front lost value reads missing
    obtain ⟨found, ⟨middle, left⟩, started, finished⟩ := bind_eq_ok_iff.mp (reads [])
    obtain ⟨used, split, rfl, usedReads⟩ := first.reads started
    obtain ⟨others, rfl, -, othersRead⟩ := (second found).reads finished
    rw [List.append_nil, List.append_nil] at split
    obtain ⟨gone, someGone, rfl⟩ | ⟨kept, rfl, rfl⟩ := cut_cases split
    · obtain ⟨place, needed, stop, failed, before, behind, within⟩ :=
        first.runsOut usedReads someGone
      refine ⟨place, needed, stop, bind_of_error failed, before, behind, ?_⟩
      rw [split, List.length_append]
      omega
    · obtain ⟨place, needed, stop, failed, before, behind, within⟩ :=
        (second found).runsOut othersRead missing
      refine ⟨place, needed, stop, ?_, ?_⟩
      · rw [bind_of_ok (usedReads kept)]
        exact failed
      · simp only [List.length_append] at before behind within ⊢
        omega

theorem lift (result : Except Fault α) : Incremental (Reader.lift result) := by
  cases result with
  | ok value => exact pure value
  | error fault => exact throw fault

theorem offset_bind {next : Nat → Reader α} (following : ∀ offset, Incremental (next offset)) :
    Incremental (Reader.offset >>= next) where
  reads := by
    intro offset bytes value stop rest read
    exact (following offset).reads read
  faults := by
    intro offset bytes fault stop failed
    exact (following offset).faults failed
  runsOut := by
    intro offset front lost value reads
    exact (following offset).runsOut reads

theorem when {condition : Prop} [Decidable condition] {item : Reader Unit} {next : Unit → Reader α}
    (asked : Incremental item) (following : ∀ done, Incremental (next done)) :
    Incremental (if condition then item >>= next else next ()) := by
  split
  · exact asked.bind following
  · exact following ()

theorem skip (count : Nat) : Incremental (Reader.skip count) :=
  (take count).bind fun _ => pure ()

theorem unsigned (width : Nat) : Incremental (Reader.unsigned width) :=
  (take width).bind fun bytes => pure (bigEndian bytes)

theorem u8 : Incremental Reader.u8 := (unsigned 1).bind fun value => pure (UInt8.ofNat value)

theorem u16 : Incremental Reader.u16 := (unsigned 2).bind fun value => pure (UInt16.ofNat value)

theorem u32 : Incremental Reader.u32 := (unsigned 4).bind fun value => pure (UInt32.ofNat value)

theorem u64 : Incremental Reader.u64 := (unsigned 8).bind fun value => pure (UInt64.ofNat value)

theorem i32 : Incremental Reader.i32 := u32.bind fun value => pure value.toInt32

theorem i64 : Incremental Reader.i64 := u64.bind fun value => pure value.toInt64

theorem manyAfter {item : Reader α} (each : Incremental item) (count : Nat) (found : List α) :
    Incremental (Reader.manyAfter item count found) := by
  induction count generalizing found with
  | zero => exact pure found.reverse
  | succ count ih => exact each.bind fun next => ih (next :: found)

theorem counted {item : Reader α} (each : Incremental item) : Incremental (Reader.counted item) :=
  u16.bind fun count => each.manyAfter count.toNat []

end Incremental

end Reader

open Reader

theorem Constant.readPayload_incremental (index : UInt16) (tag : UInt8) :
    Incremental (readPayload index tag) := by
  unfold readPayload
  split
  case h_1 =>
    refine Incremental.u16.bind fun length => ?_
    exact (Incremental.take length.toNat).bind fun text => .pure (utf8 text)
  case h_2 => exact Incremental.i32.bind fun value => .pure (integer value)
  case h_3 => exact Incremental.u32.bind fun bits => .pure (float bits)
  case h_4 => exact Incremental.i64.bind fun value => .pure (long value)
  case h_5 => exact Incremental.u64.bind fun bits => .pure (double bits)
  case h_6 | h_7 | h_13 | h_16 | h_17 => exact Incremental.u16.bind fun _ => .pure _
  case h_12 => exact Incremental.u8.bind fun _ => Incremental.u16.bind fun _ => .pure _
  case h_8 | h_9 | h_10 | h_11 | h_14 | h_15 =>
    exact Incremental.u16.bind fun _ => Incremental.u16.bind fun _ => .pure _
  case h_18 => exact .throw _

theorem Constant.read_incremental (index : UInt16) : Incremental (read index) :=
  Incremental.u8.bind (readPayload_incremental index)

theorem Pool.readSlots_incremental (room : Nat) (slots : Array (Option Constant)) :
    Incremental (readSlots room slots) := by
  -- A two-slot constant uses up two rooms, so the induction is on every smaller room.
  induction room using Nat.strongRecOn generalizing slots with
  | ind room ih =>
      cases room with
      | zero => exact .pure slots
      | succ room =>
          rw [readSlots]
          refine (Constant.read_incremental _).bind fun constant => ?_
          split
          · cases room with
            | zero => exact .throw _
            | succ room => exact ih room (by omega) _
          · exact ih room (by omega) _

theorem Pool.read_incremental : Incremental Pool.read := by
  refine Incremental.u16.bind fun count => ?_
  split
  · exact .pure empty
  · exact (readSlots_incremental _ _).bind fun _ => .pure _

theorem Attribute.readAll_incremental (pool : Pool) : Incremental (readAll pool) := by
  refine Incremental.counted ?_
  refine Incremental.u16.bind fun nameIndex => ?_
  refine (Incremental.lift (nameAt pool nameIndex)).bind fun _ => ?_
  refine Incremental.u32.bind fun length => ?_
  exact (Incremental.take length.toNat).bind fun _ => .pure _

theorem Member.readAll_incremental (pool : Pool) : Incremental (readAll pool) := by
  refine Incremental.counted ?_
  refine Incremental.u16.bind fun access => ?_
  refine Incremental.u16.bind fun nameIndex => ?_
  refine Incremental.u16.bind fun descriptorIndex => ?_
  refine (Incremental.lift (pool.text descriptorIndex)).bind fun _ => ?_
  exact (Attribute.readAll_incremental pool).bind fun _ => .pure _

namespace AnnotationTree

theorem runsAfter_incremental {run : Reader (List AnnotationValue)} (each : Incremental run)
    (count : Nat) (found : List AnnotationValue) : Incremental (runsAfter run count found) := by
  induction count generalizing found with
  | zero => exact .pure found.reverse
  | succ count ih => exact each.bind fun values => ih (values.reverseAux found)

theorem readValues_incremental (room : Nat) (named : Bool) :
    Incremental (readValues room named) := by
  induction room generalizing named with
  | zero => exact .offset_bind fun _ => .throw _
  | succ room ih =>
      refine Incremental.u16.bind fun count => runsAfter_incremental ?_ count.toNat []
      refine Incremental.when (.skip 2) fun _ => Incremental.u8.bind fun tag => ?_
      -- What follows depends on the tag; an array and an annotation go one level down.
      split
      · exact Incremental.u16.bind fun _ => (Incremental.skip 2).bind fun _ => .pure _
      · split
        · exact Incremental.u16.bind fun _ => .pure _
        · split
          · exact Incremental.u16.bind fun _ => (ih true).bind fun _ => .pure _
          · split
            · exact ih false
            · exact Incremental.u16.bind fun _ => .pure _

theorem read_incremental : Incremental read :=
  Incremental.u16.bind fun _ => (readValues_incremental _ true).bind fun _ => .pure _

theorem readAll_incremental : Incremental readAll := read_incremental.counted

end AnnotationTree

namespace ClassFile

theorem readClassIndex_incremental (pool : Pool) : Incremental (readClassIndex pool) :=
  Incremental.u16.bind fun index =>
    (Incremental.lift (pool.className index)).bind fun _ => .pure index

theorem readSuperIndex_incremental (pool : Pool) : Incremental (readSuperIndex pool) := by
  refine Incremental.u16.bind fun index => ?_
  split
  · exact (Incremental.lift (pool.className index)).bind fun _ => .pure index
  · exact .pure index

theorem read_incremental : Incremental read := by
  refine Incremental.u32.bind fun found => .when (.throw (.notAClassFile found)) fun _ => ?_
  refine Incremental.u16.bind fun minor => Incremental.u16.bind fun major => ?_
  refine Pool.read_incremental.bind fun pool => Incremental.u16.bind fun access => ?_
  refine (readClassIndex_incremental pool).bind fun thisClass => ?_
  refine (readSuperIndex_incremental pool).bind fun superClass => ?_
  refine (readClassIndex_incremental pool).counted.bind fun interfaces => ?_
  refine (Member.readAll_incremental pool).bind fun fields => ?_
  refine (Member.readAll_incremental pool).bind fun methods => ?_
  exact (Attribute.readAll_incremental pool).bind fun _ => .pure _

end ClassFile

namespace Decoder

variable {σ : Type}

def reader (decoder : Decoder σ) (origin : Option String) : Reader ClassRecord := do
  let file ← ClassFile.read
  Reader.lift (file.toRecord decoder.filter origin)

theorem decode_eq_run_reader (decoder : Decoder σ) (bytes : List UInt8) (origin : Option String)
    (state : σ) : (decoder.decode bytes origin state).1 = (decoder.reader origin).run bytes := by
  rw [decode_fst, ClassFile.decode, reader, run_bind_lift]

theorem reader_incremental (decoder : Decoder σ) (origin : Option String) :
    Incremental (decoder.reader origin) :=
  ClassFile.read_incremental.bind fun file => .lift (file.toRecord decoder.filter origin)

end Decoder

/-- How a reader takes what follows its input and what is missing from it. -/
structure Reader.EndsExactly {α : Type} (reader : Reader α) : Prop where
  value_append : ∀ bytes value after, reader (.ofBytes bytes) = .ok value after →
    ∀ tail, reader (.ofBytes (bytes ++ tail)) = .ok value ⟨after.offset, after.rest ++ tail⟩
  /-- Bytes behind the input leave a fault as it is, unless the input was too short. -/
  fault_append : ∀ bytes fault stop, reader (.ofBytes bytes) = .error fault stop →
    (∀ place needed, fault ≠ .truncated place needed) →
    ∀ tail, reader (.ofBytes (bytes ++ tail)) = .error fault ⟨stop.offset, stop.rest ++ tail⟩
  consumes : ∀ bytes value after, reader (.ofBytes bytes) = .ok value after →
    after.offset ≤ bytes.length ∧ after.rest = bytes.drop after.offset
  /-- An input cut short fails at a field that the cut runs through. -/
  truncated_take : ∀ bytes value after, reader (.ofBytes bytes) = .ok value after →
    ∀ count < after.offset, ∃ place needed,
      reader.run (bytes.take count) = .error (.truncated place needed) ∧
      place ≤ count ∧ count < place + needed ∧ place + needed ≤ after.offset

theorem Reader.Incremental.endsExactly {α : Type} {reader : Reader α}
    (incremental : Incremental reader) : reader.EndsExactly where
  value_append := by
    rintro bytes value ⟨stop, rest⟩ read tail
    obtain ⟨used, rfl, rfl, reads⟩ := incremental.reads read
    have longer := reads (rest ++ tail)
    rwa [← List.append_assoc] at longer
  fault_append := fun bytes fault stop failed => incremental.faults failed
  consumes := by
    rintro bytes value ⟨stop, rest⟩ read
    obtain ⟨used, rfl, rfl, -⟩ := incremental.reads read
    simp
  truncated_take := by
    rintro bytes value ⟨stop, rest⟩ read count inside
    obtain ⟨used, rfl, rfl, reads⟩ := incremental.reads read
    simp only [Nat.zero_add] at inside
    have split : used = used.take count ++ used.drop count := (List.take_append_drop ..).symm
    have missing : used.drop count ≠ [] := by
      rw [ne_eq, List.drop_eq_nil_iff]
      omega
    have length : (used.take count).length = count := List.length_take_of_le (by omega)
    rw [split] at reads
    obtain ⟨place, needed, stop, failed, before, behind, within⟩ :=
      incremental.runsOut reads missing
    rw [← split] at within
    refine ⟨place, needed, ?_, by omega, by omega, within⟩
    have front : (used ++ rest).take count = used.take count :=
      List.take_append_of_le_length (by omega)
    rw [front, Reader.run, Cursor.ofBytes, failed]

theorem readers_end_exactly {σ : Type} (pool : Pool) (decoder : Decoder σ)
    (origin : Option String) :
    Pool.read.EndsExactly ∧ (Attribute.readAll pool).EndsExactly ∧
      (Member.readAll pool).EndsExactly ∧
      (AnnotationTree.readAll.EndsExactly ∧
        ∀ payload, AnnotationTree.parse payload = AnnotationTree.readAll.run payload) ∧
      ((decoder.reader origin).EndsExactly ∧ ∀ bytes state,
        (decoder.decode bytes origin state).1 = (decoder.reader origin).run bytes) := by
  refine ⟨Pool.read_incremental.endsExactly, (Attribute.readAll_incremental pool).endsExactly,
    (Member.readAll_incremental pool).endsExactly,
    ⟨AnnotationTree.readAll_incremental.endsExactly, fun _ => rfl⟩,
    (decoder.reader_incremental origin).endsExactly, ?_⟩
  intro bytes state
  exact decoder.decode_eq_run_reader bytes origin state

end ClassCoupling
