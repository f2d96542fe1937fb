import ClassCoupling.ClassFile.Pool

/-!
Attributes: an index that names the attribute, a four-byte length and a payload.
The index zero stands for no name; any other index has to name a text.
-/
namespace ClassCoupling

structure Attribute where
  nameIndex : UInt16
  payload : List UInt8
deriving DecidableEq, Repr

namespace Attribute

def sourceFile : String := "SourceFile"

def visibleAnnotations : String := "RuntimeVisibleAnnotations"

def nameAt (pool : Pool) (index : UInt16) : Except Fault (Option String) :=
  if index = 0 then .ok none else some <$> pool.text index

def name (pool : Pool) (item : Attribute) : Except Fault (Option String) :=
  nameAt pool item.nameIndex

def isNamed (pool : Pool) (name : String) (item : Attribute) : Bool :=
  match item.name pool with
  | .ok (some text) => text == name
  | _ => false

/-- The name is looked up before the payload is read. -/
def read (pool : Pool) : Reader Attribute := do
  let nameIndex ← Reader.u16
  let _ ← Reader.lift (nameAt pool nameIndex)
  let length ← Reader.u32
  return ⟨nameIndex, ← Reader.take length.toNat⟩

def readAll (pool : Pool) : Reader (List Attribute) := Reader.counted (read pool)

def encode (item : Attribute) : List UInt8 :=
  u16Bytes item.nameIndex ++ u32Bytes (UInt32.ofNat item.payload.length) ++
    item.payload

def encodeAll (attributes : List Attribute) : List UInt8 := countedBytes encode attributes

end Attribute

end ClassCoupling
