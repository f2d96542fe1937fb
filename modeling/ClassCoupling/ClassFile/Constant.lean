import ClassCoupling.Cursor

/-!
The constants of a class file: seventeen kinds, each a tag byte and a payload.
Text is kept as the bytes that were written. An eight-byte number takes two
slots of the pool, every other constant takes one.
-/
namespace ClassCoupling

inductive Constant where
  | utf8 (bytes : List UInt8)
  | integer (value : Int32)
  | float (bits : UInt32)
  | long (value : Int64)
  | double (bits : UInt64)
  | classInfo (nameIndex : UInt16)
  | string (textIndex : UInt16)
  | fieldRef (classIndex nameAndTypeIndex : UInt16)
  | methodRef (classIndex nameAndTypeIndex : UInt16)
  | interfaceMethodRef (classIndex nameAndTypeIndex : UInt16)
  | nameAndType (nameIndex descriptorIndex : UInt16)
  | methodHandle (kind : UInt8) (referenceIndex : UInt16)
  | methodType (descriptorIndex : UInt16)
  | dynamic (bootstrapIndex nameAndTypeIndex : UInt16)
  | invokeDynamic (bootstrapIndex nameAndTypeIndex : UInt16)
  | moduleInfo (nameIndex : UInt16)
  | packageInfo (nameIndex : UInt16)
deriving DecidableEq, Repr

namespace Constant

def tag : Constant → UInt8
  | utf8 _ => 1
  | integer _ => 3
  | float _ => 4
  | long _ => 5
  | double _ => 6
  | classInfo _ => 7
  | string _ => 8
  | fieldRef _ _ => 9
  | methodRef _ _ => 10
  | interfaceMethodRef _ _ => 11
  | nameAndType _ _ => 12
  | methodHandle _ _ => 15
  | methodType _ => 16
  | dynamic _ _ => 17
  | invokeDynamic _ _ => 18
  | moduleInfo _ => 19
  | packageInfo _ => 20

def isWide : Constant → Bool
  | long _ | double _ => true
  | _ => false

def width (constant : Constant) : Nat := if constant.isWide then 2 else 1

theorem width_pos (constant : Constant) : 0 < constant.width := by
  unfold width
  split <;> decide

def payload : Constant → List UInt8
  | utf8 bytes => u16Bytes (UInt16.ofNat bytes.length) ++ bytes
  | integer value => u32Bytes value.toUInt32
  | float bits => u32Bytes bits
  | long value => u64Bytes value.toUInt64
  | double bits => u64Bytes bits
  | classInfo index | string index | methodType index | moduleInfo index | packageInfo index =>
      u16Bytes index
  | fieldRef first second | methodRef first second | interfaceMethodRef first second
  | nameAndType first second | dynamic first second | invokeDynamic first second =>
      u16Bytes first ++ u16Bytes second
  | methodHandle kind index => kind :: u16Bytes index

def encode (constant : Constant) : List UInt8 := constant.tag :: constant.payload

/-- The payload that belongs to a tag; `index` is the slot named when the tag is unknown. -/
def readPayload (index : UInt16) (tag : UInt8) : Reader Constant :=
  match tag with
  | 1 => do
      let length ← Reader.u16
      return utf8 (← Reader.take length.toNat)
  | 3 => return integer (← Reader.i32)
  | 4 => return float (← Reader.u32)
  | 5 => return long (← Reader.i64)
  | 6 => return double (← Reader.u64)
  | 7 => return classInfo (← Reader.u16)
  | 8 => return string (← Reader.u16)
  | 9 => return fieldRef (← Reader.u16) (← Reader.u16)
  | 10 => return methodRef (← Reader.u16) (← Reader.u16)
  | 11 => return interfaceMethodRef (← Reader.u16) (← Reader.u16)
  | 12 => return nameAndType (← Reader.u16) (← Reader.u16)
  | 15 => return methodHandle (← Reader.u8) (← Reader.u16)
  | 16 => return methodType (← Reader.u16)
  | 17 => return dynamic (← Reader.u16) (← Reader.u16)
  | 18 => return invokeDynamic (← Reader.u16) (← Reader.u16)
  | 19 => return moduleInfo (← Reader.u16)
  | 20 => return packageInfo (← Reader.u16)
  | _ => throw (.malformedPool index tag)

def read (index : UInt16) : Reader Constant := do
  readPayload index (← Reader.u8)

end Constant

end ClassCoupling
