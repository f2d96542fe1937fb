import ClassCoupling.Fault

/-!
A cursor over bytes, and the big-endian fields that are read through it.
The cursor keeps the bytes still ahead and how many lie behind. A read that
needs more than is left fails with the offset and the size of what it needed,
and leaves the cursor where it stood. Beside each field stands its encoding.
-/
namespace ClassCoupling

structure Cursor where
  offset : Nat
  rest : List UInt8
deriving DecidableEq, Repr

namespace Cursor

def ofBytes (bytes : List UInt8) : Cursor := ⟨0, bytes⟩

def remaining (cursor : Cursor) : Nat := cursor.rest.length

end Cursor

/-- A read moves the cursor; a read that fails says where the cursor stopped. -/
abbrev Reader := EStateM Fault Cursor

def bigEndian (bytes : List UInt8) : Nat :=
  bytes.foldl (fun value byte => value * 256 + byte.toNat) 0

def bigEndianBytes : Nat → Nat → List UInt8
  | 0, _ => []
  | width + 1, value => bigEndianBytes width (value / 256) ++ [UInt8.ofNat value]

theorem bigEndianBytes_length (width value : Nat) :
    (bigEndianBytes width value).length = width := by
  induction width generalizing value with
  | zero => rfl
  | succ width ih => simp [bigEndianBytes, ih]

theorem bigEndian_append (bytes : List UInt8) (byte : UInt8) :
    bigEndian (bytes ++ [byte]) = bigEndian bytes * 256 + byte.toNat := by
  simp [bigEndian]

theorem bigEndian_bigEndianBytes (width value : Nat) :
    bigEndian (bigEndianBytes width value) = value % Nat.pow 256 width := by
  induction width generalizing value with
  | zero => simp [bigEndianBytes, bigEndian, Nat.mod_one]
  | succ width ih =>
      have low : (UInt8.ofNat value).toNat = value % 256 := by simp
      have power : Nat.pow 256 (width + 1) = 256 * Nat.pow 256 width :=
        Nat.mul_comm (Nat.pow 256 width) 256
      rw [bigEndianBytes, bigEndian_append, ih, low, power, Nat.mod_mul]
      omega

namespace Reader

/-- The next `count` bytes. Only `count` bytes are looked at, however many are left. -/
def take (count : Nat) : Reader (List UInt8) := fun cursor =>
  let chunk := cursor.rest.take count
  if chunk.length = count then
    .ok chunk ⟨cursor.offset + count, cursor.rest.drop count⟩
  else
    .error (.truncated cursor.offset count) cursor

theorem take_of_le {count : Nat} {cursor : Cursor} (enough : count ≤ cursor.remaining) :
    take count cursor =
      .ok (cursor.rest.take count) ⟨cursor.offset + count, cursor.rest.drop count⟩ := by
  have full : (cursor.rest.take count).length = count := by
    simp only [Cursor.remaining] at enough
    simp only [List.length_take]
    omega
  simp only [take, full, ↓reduceIte]

theorem take_of_lt {count : Nat} {cursor : Cursor} (short : cursor.remaining < count) :
    take count cursor = .error (.truncated cursor.offset count) cursor := by
  have cut : (cursor.rest.take count).length ≠ count := by
    simp only [Cursor.remaining] at short
    simp only [List.length_take]
    omega
  simp only [take, cut, ↓reduceIte]

def skip (count : Nat) : Reader Unit := do
  let _ ← take count

def offset : Reader Nat := do
  return (← get).offset

def unsigned (width : Nat) : Reader Nat := do
  return bigEndian (← take width)

def u8 : Reader UInt8 := do return UInt8.ofNat (← unsigned 1)
def u16 : Reader UInt16 := do return UInt16.ofNat (← unsigned 2)
def u32 : Reader UInt32 := do return UInt32.ofNat (← unsigned 4)
def u64 : Reader UInt64 := do return UInt64.ofNat (← unsigned 8)
def i32 : Reader Int32 := do return (← u32).toInt32
def i64 : Reader Int64 := do return (← u64).toInt64

def lift {α : Type} : Except Fault α → Reader α
  | .ok value => pure value
  | .error fault => throw fault

def manyAfter {α : Type} (item : Reader α) : Nat → List α → Reader (List α)
  | 0, found => pure found.reverse
  | count + 1, found => do
      let next ← item
      manyAfter item count (next :: found)

def many {α : Type} (count : Nat) (item : Reader α) : Reader (List α) :=
  manyAfter item count []

def counted {α : Type} (item : Reader α) : Reader (List α) := do
  let count ← u16
  many count.toNat item

def run {α : Type} (reader : Reader α) (bytes : List UInt8) : Except Fault α :=
  match reader (Cursor.ofBytes bytes) with
  | .ok value _ => .ok value
  | .error fault _ => .error fault

end Reader

def u16Bytes (value : UInt16) : List UInt8 := bigEndianBytes 2 value.toNat
def u32Bytes (value : UInt32) : List UInt8 := bigEndianBytes 4 value.toNat
def u64Bytes (value : UInt64) : List UInt8 := bigEndianBytes 8 value.toNat

def countedBytes {α : Type} (encode : α → List UInt8) (items : List α) : List UInt8 :=
  u16Bytes (UInt16.ofNat items.length) ++ items.flatMap encode

end ClassCoupling
