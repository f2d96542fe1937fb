import ClassCoupling.ClassFile.Member

/-!
Class files. Reading follows the order of the format and looks an index up as
soon as it is read, so the first fault in the file is the one reported. What is
read is the structure of the file itself, indices and payloads unresolved;
`encode` writes that structure back.
-/
namespace ClassCoupling

structure ClassFile where
  minor : UInt16
  major : UInt16
  pool : Pool
  access : UInt16
  thisClass : UInt16
  /-- Zero in the one class without a super class. -/
  superClass : UInt16
  interfaces : List UInt16
  fields : List Member
  methods : List Member
  attributes : List Attribute
deriving DecidableEq, Repr

namespace ClassFile

def magic : UInt32 := 0xCAFEBABE

def interfaceFlag : UInt16 := 0x0200

def abstractFlag : UInt16 := 0x0400

def isInterface (file : ClassFile) : Bool := file.access &&& interfaceFlag != 0

def isAbstract (file : ClassFile) : Bool :=
  file.access &&& abstractFlag != 0 && !file.isInterface

def readClassIndex (pool : Pool) : Reader UInt16 := do
  let index ← Reader.u16
  let _ ← Reader.lift (pool.className index)
  return index

def readSuperIndex (pool : Pool) : Reader UInt16 := do
  let index ← Reader.u16
  if index ≠ 0 then
    let _ ← Reader.lift (pool.className index)
  return index

def read : Reader ClassFile := do
  let found ← Reader.u32
  if found ≠ magic then throw (.notAClassFile found)
  let minor ← Reader.u16
  let major ← Reader.u16
  let pool ← Pool.read
  let access ← Reader.u16
  let thisClass ← readClassIndex pool
  let superClass ← readSuperIndex pool
  let interfaces ← Reader.counted (readClassIndex pool)
  let fields ← Member.readAll pool
  let methods ← Member.readAll pool
  let attributes ← Attribute.readAll pool
  return { minor, major, pool, access, thisClass, superClass, interfaces, fields, methods,
           attributes }

def encode (file : ClassFile) : List UInt8 :=
  u32Bytes magic ++ u16Bytes file.minor ++ u16Bytes file.major ++ file.pool.encode ++
    u16Bytes file.access ++ u16Bytes file.thisClass ++ u16Bytes file.superClass ++
    countedBytes u16Bytes file.interfaces ++ Member.encodeAll file.fields ++
    Member.encodeAll file.methods ++ Attribute.encodeAll file.attributes

end ClassFile

end ClassCoupling
