import ClassCoupling.ClassFile.Constant
import ClassCoupling.Text.ModifiedUtf8

/-!
The constant pool: slots numbered from one, of which a two-slot constant fills
the first and leaves the second dead. The declared count is one more than the
last slot. A look-up fails at slot zero, past the count, and at a dead slot.
-/
namespace ClassCoupling

structure Pool where
  /-- The slots from zero on; slot zero is never filled. -/
  slots : Array (Option Constant)
deriving DecidableEq, Repr

namespace Pool

def empty : Pool := ⟨#[]⟩

def slotsOf (constant : Constant) : List (Option Constant) :=
  if constant.isWide then [some constant, none] else [some constant]

theorem slotsOf_length (constant : Constant) : (slotsOf constant).length = constant.width := by
  unfold slotsOf Constant.width
  split <;> rfl

def ofConstants (constants : List Constant) : Pool :=
  ⟨(none :: constants.flatMap slotsOf).toArray⟩

def readSlots : Nat → Array (Option Constant) → Reader (Array (Option Constant))
  | 0, slots => pure slots
  | room + 1, slots => do
      let index := UInt16.ofNat slots.size
      let constant ← Constant.read index
      if constant.isWide then
        match room with
        | 0 => throw (.malformedPool index constant.tag)
        | room + 1 => readSlots room ((slots.push (some constant)).push none)
      else
        readSlots room (slots.push (some constant))

def read : Reader Pool := do
  let count ← Reader.u16
  match count.toNat with
  | 0 => return empty
  | room + 1 => return ⟨← readSlots room #[none]⟩

/-- The declared count; indices in use lie strictly between zero and it. -/
def size (pool : Pool) : Nat := pool.slots.size

def entry (pool : Pool) (index : UInt16) : Except Fault Constant :=
  match pool.slots[index.toNat]? with
  | some (some constant) => .ok constant
  | _ => .error (.invalidIndex index)

def text (pool : Pool) (index : UInt16) : Except Fault String := do
  match ← pool.entry index with
  | .utf8 bytes => return ModifiedUtf8.decode bytes
  | _ => throw (.wrongConstant index "Utf8")

def className (pool : Pool) (index : UInt16) : Except Fault String := do
  match ← pool.entry index with
  | .classInfo nameIndex => pool.text nameIndex
  | _ => throw (.wrongConstant index "Class")

def live (pool : Pool) : List (UInt16 × Constant) :=
  pool.slots.toList.zipIdx.filterMap fun (slot, index) =>
    slot.map fun constant => (UInt16.ofNat index, constant)

def constants (pool : Pool) : List Constant := pool.slots.toList.filterMap id

def encode (pool : Pool) : List UInt8 :=
  u16Bytes (UInt16.ofNat pool.size) ++ pool.constants.flatMap Constant.encode

end Pool

end ClassCoupling
