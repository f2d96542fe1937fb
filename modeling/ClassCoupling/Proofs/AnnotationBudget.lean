import ClassCoupling.Proofs.AnnotationGrammar
import Mathlib.Algebra.BigOperators.Ring.List
import Mathlib.Algebra.Ring.Nat

/-!
What parsed annotations cost in bytes. A reader pays when the bytes that it takes cover the
price of what it gives. Readers that pay can be put one after the other, with what one has
left over as credit for the next, so every value of a parsed payload has been paid for,
whatever counts the payload declares. An array leaves no value of its own, and pays more
than it has to.
-/
namespace ClassCoupling

namespace AnnotationValue

mutual

/-- A measure of values: `leaf` for one with nothing inside, else `node` of the measures inside. -/
def measure (leaf : Nat) (node : List Nat → Nat) : AnnotationValue → Nat
  | nested _ values => node (measureAll leaf node values)
  | _ => leaf

def measureAll (leaf : Nat) (node : List Nat → Nat) : List AnnotationValue → List Nat
  | [] => []
  | value :: values => measure leaf node value :: measureAll leaf node values

end

theorem measureAll_eq (leaf : Nat) (node : List Nat → Nat) (values : List AnnotationValue) :
    measureAll leaf node values = values.map (measure leaf node) := by
  induction values with
  | nil => rw [measureAll, List.map_nil]
  | cons value values ih => rw [measureAll, ih, List.map_cons]

def size : AnnotationValue → Nat := measure 1 fun sizes => 1 + sizes.sum

def nesting : AnnotationValue → Nat := measure 0 fun levels => 1 + levels.foldr max 0

def sizeOfAll (values : List AnnotationValue) : Nat := (values.map size).sum

def nestingOfAll (values : List AnnotationValue) : Nat := (values.map nesting).foldr max 0

@[simp] theorem size_scalar (tag : UInt8) (index : UInt16) : (scalar tag index).size = 1 := rfl

@[simp] theorem size_classLiteral (index : UInt16) : (classLiteral index).size = 1 := rfl

@[simp] theorem size_enumConstant (index : UInt16) : (enumConstant index).size = 1 := rfl

theorem size_nested (typeIndex : UInt16) (values : List AnnotationValue) :
    (nested typeIndex values).size = 1 + sizeOfAll values := by
  rw [size, measure, measureAll_eq]
  rfl

theorem nesting_nested (typeIndex : UInt16) (values : List AnnotationValue) :
    (nested typeIndex values).nesting = 1 + nestingOfAll values := by
  rw [nesting, measure, measureAll_eq]
  rfl

@[simp] theorem sizeOfAll_singleton (value : AnnotationValue) : sizeOfAll [value] = value.size := by
  simp [sizeOfAll]

@[simp] theorem nestingOfAll_singleton (value : AnnotationValue) :
    nestingOfAll [value] = value.nesting := by
  simp [nestingOfAll]

theorem sizeOfAll_flatten (runs : List (List AnnotationValue)) :
    sizeOfAll runs.flatten = (runs.map sizeOfAll).sum := by
  simp only [sizeOfAll, List.map_flatten, List.sum_flatten, List.map_map]
  rfl

theorem nestingOfAll_lt_iff {values : List AnnotationValue} {room : Nat} :
    nestingOfAll values < room ↔ 0 < room ∧ ∀ value ∈ values, value.nesting < room := by
  induction values with
  | nil => simp [nestingOfAll]
  | cons value values ih =>
      rw [nestingOfAll, List.map_cons, List.foldr_cons, ← nestingOfAll, Nat.max_lt, ih,
        List.forall_mem_cons]
      exact and_left_comm

end AnnotationValue

namespace Reader

variable {α β : Type}

/-- What the reader gives costs no more than the bytes that it takes and those paid before, and
is sound. -/
structure Pays (credit : Nat) (reader : Reader α) (price : α → Nat) (sound : α → Prop) : Prop where
  covers : ∀ {cursor value after}, reader cursor = .ok value after →
    price value + after.remaining ≤ credit + cursor.remaining
  holds : ∀ {cursor value after}, reader cursor = .ok value after → sound value

namespace Pays

theorem pure {credit : Nat} {value : α} {price : α → Nat} {sound : α → Prop}
    (covered : price value ≤ credit) (good : sound value) :
    Pays credit (pure value) price sound where
  covers := by
    intro cursor result after read
    obtain ⟨rfl, rfl⟩ := pure_eq_ok_iff.mp read
    exact Nat.add_le_add_right covered _
  holds := by
    intro cursor result after read
    obtain ⟨rfl, -⟩ := pure_eq_ok_iff.mp read
    exact good

theorem bind {credit : Nat} {item : Reader α} {next : α → Reader β} {gain : α → Nat}
    {good : α → Prop} {price : β → Nat} {sound : β → Prop} (starts : Pays credit item gain good)
    (continues : ∀ value, good value → Pays (gain value) (next value) price sound) :
    Pays credit (item >>= next) price sound where
  covers := by
    intro cursor value after read
    obtain ⟨first, middle, started, finished⟩ := bind_eq_ok_iff.mp read
    have paid := starts.covers started
    exact Nat.le_trans ((continues first (starts.holds started)).covers finished) paid
  holds := by
    intro cursor value after read
    obtain ⟨first, middle, started, finished⟩ := bind_eq_ok_iff.mp read
    exact (continues first (starts.holds started)).holds finished

theorem lend {credit : Nat} {item : Reader α} {price : α → Nat} {sound : α → Prop}
    (pays : Pays credit item price sound) (more : Nat) :
    Pays (more + credit) item (fun value => more + price value) sound where
  covers := by
    intro cursor value after read
    have covered := pays.covers read
    rw [Nat.add_assoc, Nat.add_assoc]
    exact Nat.add_le_add_left covered more
  holds := pays.holds

theorem weaken {credit more : Nat} {item : Reader α} {price less : α → Nat}
    {sound weaker : α → Prop} (pays : Pays credit item price sound) (rich : credit ≤ more)
    (cheaper : ∀ value, less value ≤ price value) (implies : ∀ value, sound value → weaker value) :
    Pays more item less weaker where
  covers := by
    intro cursor value after read
    have covered := pays.covers read
    have cheap := cheaper value
    omega
  holds := fun read => implies _ (pays.holds read)

theorem of_exact {item : Reader α} {encode : α → List UInt8} {valid : α → Prop}
    (exact : Exact item encode valid) {width : Nat}
    (widths : ∀ value, valid value → (encode value).length = width) (credit : Nat) :
    Pays credit item (fun _ => credit + width) fun _ => True where
  covers := by
    intro cursor value after read
    obtain ⟨validValue, split, -⟩ := exact.inverts read
    have length := widths value validValue
    simp only [Cursor.remaining, split, List.length_append]
    omega
  holds := fun _ => trivial

theorem u8 (credit : Nat) : Pays credit u8 (fun _ => credit + 1) fun _ => True :=
  of_exact u8_exact (fun _ _ => rfl) credit

theorem u16 (credit : Nat) : Pays credit u16 (fun _ => credit + 2) fun _ => True :=
  of_exact u16_exact (fun value _ => bigEndianBytes_length 2 value.toNat) credit

theorem skip (credit count : Nat) :
    Pays credit (skip count) (fun _ => credit + count) fun _ => True :=
  (of_exact (take_exact count) (fun _ length => length) credit).bind fun _ _ =>
    .pure (Nat.le_refl _) trivial

theorem manyAfter {item : Reader α} {price : α → Nat} {sound : α → Prop}
    (each : Pays 0 item price sound) (count credit : Nat) {found : List α}
    (before : ∀ value ∈ found, sound value) :
    Pays (credit + (found.map price).sum) (manyAfter item count found)
      (fun values => credit + (values.map price).sum)
      fun values => ∀ value ∈ values, sound value := by
  induction count generalizing found with
  | zero =>
      have same : (found.reverse.map price).sum = (found.map price).sum := by
        rw [List.map_reverse, List.sum_reverse]
      exact .pure (Nat.le_of_eq (congrArg (credit + ·) same)) (by simpa using before)
  | succ count ih =>
      refine (each.lend (credit + (found.map price).sum)).bind fun value good => ?_
      have others := @ih (value :: found) (List.forall_mem_cons.mpr ⟨good, before⟩)
      rwa [List.map_cons, List.sum_cons, Nat.add_comm (price value), ← Nat.add_assoc] at others

theorem counted {item : Reader α} {price : α → Nat} {sound : α → Prop}
    (each : Pays 0 item price sound) :
    Pays 0 (counted item) (fun values => 2 + (values.map price).sum)
      fun values => ∀ value ∈ values, sound value :=
  (u16 0).bind fun count _ => each.manyAfter count.toNat 2 (List.forall_mem_nil _)

end Pays

end Reader

namespace AnnotationTree

open AnnotationValue AnnotationSource

def valueCount (tree : AnnotationTree) : Nat := sizeOfAll tree.values

def nesting (tree : AnnotationTree) : Nat := nestingOfAll tree.values

theorem readElement_pays {deeper : Bool → Reader (List AnnotationValue)} {room : Nat}
    (inside : ∀ named, Reader.Pays 0 (deeper named) (fun values => 2 + 3 * sizeOfAll values)
      fun values => nestingOfAll values < room) :
    Reader.Pays 0 (readElement deeper) (fun values => 3 * sizeOfAll values)
      fun values => nestingOfAll values < room + 1 := by
  refine (Reader.Pays.u8 0).bind fun tag _ => ?_
  -- The tag is one of the three bytes; an index is the other two.
  split
  case isTrue =>
    refine (Reader.Pays.u16 1).bind fun typeIndex _ => (Reader.Pays.skip 3 2).bind fun _ _ => ?_
    exact .pure (by simp) (Nat.zero_lt_succ _)
  split
  case isTrue =>
    exact (Reader.Pays.u16 1).bind fun typeIndex _ => .pure (by simp) (Nat.zero_lt_succ _)
  split
  case isTrue =>
    refine (Reader.Pays.u16 1).bind fun typeIndex _ => ?_
    -- The count in front of the values inside is paid over and above.
    refine ((inside true).lend 3).bind fun values shallow => .pure ?_ ?_
    · rw [sizeOfAll_singleton, size_nested]
      omega
    · rw [nestingOfAll_singleton, nesting_nested]
      omega
  split
  case isTrue =>
    exact ((inside false).lend 1).weaken (Nat.le_refl _) (fun values => by omega)
      fun values shallow => Nat.lt_succ_of_lt shallow
  case isFalse =>
    exact (Reader.Pays.u16 1).bind fun index _ => .pure (by simp) (Nat.zero_lt_succ _)

theorem readItem_pays {room : Nat}
    (inside : ∀ named, Reader.Pays 0 (readValues room named)
      (fun values => 2 + 3 * sizeOfAll values) fun values => nestingOfAll values < room)
    (named : Bool) :
    Reader.Pays 0 (readItem room named) (fun values => 3 * sizeOfAll values)
      fun values => nestingOfAll values < room + 1 := by
  cases named with
  | false => exact readElement_pays inside
  | true =>
      refine (Reader.Pays.skip 0 2).bind fun _ _ => ?_
      exact (readElement_pays inside).weaken (Nat.zero_le _) (fun _ => Nat.le_refl _) fun _ => id

theorem readValues_pays (room : Nat) (named : Bool) :
    Reader.Pays 0 (readValues room named) (fun values => 2 + 3 * sizeOfAll values)
      fun values => nestingOfAll values < room := by
  induction room generalizing named with
  | zero =>
      -- Nothing is given without a level left.
      refine ⟨?_, ?_⟩ <;> intro cursor values after read <;> cases read
  | succ room ih =>
      rw [readValues_succ]
      refine (readItem_pays ih named).counted.bind fun runs shallow => .pure ?_ ?_
      · exact Nat.le_of_eq (by rw [sizeOfAll_flatten, List.sum_map_mul_left])
      · rw [nestingOfAll_lt_iff]
        refine ⟨Nat.zero_lt_succ _, fun value listed => ?_⟩
        obtain ⟨run, mem, inside⟩ := List.mem_flatten.mp listed
        exact (nestingOfAll_lt_iff.mp (shallow run mem)).2 value inside

theorem read_pays :
    Reader.Pays 0 read (fun tree => 4 + 3 * tree.valueCount)
      fun tree => tree.nesting ≤ maxNesting := by
  refine (Reader.Pays.u16 0).bind fun typeIndex _ => ?_
  refine ((readValues_pays (maxNesting + 1) true).lend 2).bind fun values shallow => .pure ?_ ?_
  · simp only [valueCount]
    omega
  · exact Nat.le_of_lt_succ shallow

theorem parse_pays {payload : List UInt8} {trees : List AnnotationTree}
    (parsed : parse payload = .ok trees) :
    2 + 4 * trees.length + 3 * (trees.map valueCount).sum ≤ payload.length ∧
      ∀ tree ∈ trees, tree.nesting ≤ maxNesting := by
  obtain ⟨after, given⟩ := Reader.run_eq_ok_iff.mp parsed
  have total : (trees.map fun tree => 4 + 3 * tree.valueCount).sum =
      4 * trees.length + 3 * (trees.map valueCount).sum := by
    rw [List.sum_map_add, List.sum_map_mul_left, List.map_const', List.sum_replicate_nat,
      Nat.mul_comm]
  have covered := read_pays.counted.covers given
  simp only [Cursor.remaining, total] at covered
  exact ⟨by omega, read_pays.counted.holds given⟩

end AnnotationTree

end ClassCoupling
