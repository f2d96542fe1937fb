import ClassCoupling.ClassFile.Attribute
import ClassCoupling.ClassFile.Descriptor

/-!
Fields and methods: access flags, a name, a descriptor and attributes.
The descriptor has to name a text; it is looked up before the attributes are read.
-/
namespace ClassCoupling

structure Member where
  access : UInt16
  nameIndex : UInt16
  descriptorIndex : UInt16
  attributes : List Attribute
deriving DecidableEq, Repr

namespace Member

def read (pool : Pool) : Reader Member := do
  let access ← Reader.u16
  let nameIndex ← Reader.u16
  let descriptorIndex ← Reader.u16
  let _ ← Reader.lift (pool.text descriptorIndex)
  return ⟨access, nameIndex, descriptorIndex, ← Attribute.readAll pool⟩

def readAll (pool : Pool) : Reader (List Member) := Reader.counted (read pool)

def types (pool : Pool) (member : Member) : Except Fault (List String) :=
  Descriptor.classNames <$> pool.text member.descriptorIndex

/-- The annotations of a member; the last such attribute counts. -/
def annotations? (pool : Pool) (member : Member) : Option Attribute :=
  member.attributes.reverse.find? (Attribute.isNamed pool Attribute.visibleAnnotations)

def encode (member : Member) : List UInt8 :=
  u16Bytes member.access ++ u16Bytes member.nameIndex ++ u16Bytes member.descriptorIndex ++
    Attribute.encodeAll member.attributes

def encodeAll (members : List Member) : List UInt8 := countedBytes encode members

end Member

end ClassCoupling
