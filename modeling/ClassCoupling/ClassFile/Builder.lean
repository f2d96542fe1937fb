import ClassCoupling.ClassFile.Basic
import Std.Data.TreeMap

/-!
Builds class-file images step by step. Text and class constants are written
once for each string and found again afterwards; a step that writes a constant
gives its index. Counts, lengths and indices are the low bits of what they count,
as the fields of the format hold them.
-/
namespace ClassCoupling

inductive AnnotationPiece where
  | index (value : UInt16)
  | tag (value : UInt8)
deriving DecidableEq, Repr

def AnnotationPiece.encode : AnnotationPiece → List UInt8
  | index value => u16Bytes value
  | tag value => [value]

structure ClassBuilder where
  entries : Array (List UInt8) := #[]
  nextIndex : UInt16 := 1
  texts : Std.TreeMap String UInt16 := {}
  classes : Std.TreeMap String UInt16 := {}
  major : UInt16 := 52
  access : UInt16 := 1
  thisClass : UInt16 := 0
  superClass : UInt16 := 0
  interfaces : Array UInt16 := #[]
  fields : Array Member := #[]
  methods : Array Member := #[]
  attributes : Array Attribute := #[]

namespace ClassBuilder

/-- Writes bytes that take `width` slots, and gives the first of the slots. -/
def push (bytes : List UInt8) (width : UInt16) : StateM ClassBuilder UInt16 :=
  modifyGet fun builder =>
    (builder.nextIndex,
      { builder with
        entries := builder.entries.push bytes
        nextIndex := builder.nextIndex + width })

def constant (constant : Constant) : StateM ClassBuilder UInt16 :=
  push constant.encode (UInt16.ofNat constant.width)

def utf8 (text : String) : StateM ClassBuilder UInt16 := do
  match (← get).texts.get? text with
  | some index => return index
  | none =>
      let index ← constant (.utf8 text.toUTF8.data.toList)
      modify fun builder => { builder with texts := builder.texts.insert text index }
      return index

def classInfo (name : String) : StateM ClassBuilder UInt16 := do
  match (← get).classes.get? name with
  | some index => return index
  | none =>
      let nameIndex ← utf8 name
      let index ← constant (.classInfo nameIndex)
      modify fun builder => { builder with classes := builder.classes.insert name index }
      return index

def attributeFor (name : String) (payload : List UInt8) : StateM ClassBuilder Attribute := do
  return ⟨← utf8 name, payload⟩

def member (name descriptor : String) (annotations : Option (List AnnotationPiece)) :
    StateM ClassBuilder Member := do
  let nameIndex ← utf8 name
  let descriptorIndex ← utf8 descriptor
  let attributes ← match annotations with
    | none => pure []
    | some pieces => do
        let one ← attributeFor Attribute.visibleAnnotations (pieces.flatMap AnnotationPiece.encode)
        pure [one]
  return ⟨1, nameIndex, descriptorIndex, attributes⟩

inductive Step where
  | utf8 (text : String)
  | classInfo (name : String)
  | integer (value : Int32)
  | long (value : Int64)
  | double (bits : UInt64)
  | methodHandle (kind : UInt8) (index : UInt16)
  | rawConstant (bytes : List UInt8)
  | major (version : UInt16)
  | access (flags : UInt16)
  | superClass (name : String)
  | interface (name : String)
  | classReference (name : String)
  | field (name descriptor : String) (annotations : Option (List AnnotationPiece))
  | method (name descriptor : String) (annotations : Option (List AnnotationPiece))
  | sourceFile (text : String)
  | annotations (pieces : List AnnotationPiece)
  | rawAttribute (name : String) (payload : List UInt8)

def addAttribute (name : String) (payload : List UInt8) : StateM ClassBuilder Unit := do
  let one ← attributeFor name payload
  modify fun builder => { builder with attributes := builder.attributes.push one }

/-- Takes one step; steps that write a single constant give its index. -/
def apply : Step → StateM ClassBuilder (Option UInt16)
  | .utf8 text => some <$> utf8 text
  | .classInfo name => some <$> classInfo name
  | .integer value => some <$> constant (.integer value)
  | .long value => some <$> constant (.long value)
  | .double bits => some <$> constant (.double bits)
  | .methodHandle kind index => some <$> constant (.methodHandle kind index)
  | .rawConstant bytes => some <$> push bytes 1
  | .major version => do
      modify fun builder => { builder with major := version }
      return none
  | .access flags => do
      modify fun builder => { builder with access := flags }
      return none
  | .superClass name => do
      let index ← classInfo name
      modify fun builder => { builder with superClass := index }
      return none
  | .interface name => do
      let index ← classInfo name
      modify fun builder => { builder with interfaces := builder.interfaces.push index }
      return none
  | .classReference name => do
      let _ ← classInfo name
      return none
  | .field name descriptor annotations => do
      let one ← member name descriptor annotations
      modify fun builder => { builder with fields := builder.fields.push one }
      return none
  | .method name descriptor annotations => do
      let one ← member name descriptor annotations
      modify fun builder => { builder with methods := builder.methods.push one }
      return none
  | .sourceFile text => do
      let index ← utf8 text
      addAttribute Attribute.sourceFile (u16Bytes index)
      return none
  | .annotations pieces => do
      addAttribute Attribute.visibleAnnotations (pieces.flatMap AnnotationPiece.encode)
      return none
  | .rawAttribute name payload => do
      addAttribute name payload
      return none

def start (name : String) : ClassBuilder :=
  let (index, builder) := (classInfo name).run {}
  { builder with thisClass := index }

def image (builder : ClassBuilder) : List UInt8 :=
  u32Bytes ClassFile.magic ++ u16Bytes 0 ++ u16Bytes builder.major ++
    u16Bytes builder.nextIndex ++ builder.entries.toList.flatten ++
    u16Bytes builder.access ++ u16Bytes builder.thisClass ++ u16Bytes builder.superClass ++
    countedBytes u16Bytes builder.interfaces.toList ++
    Member.encodeAll builder.fields.toList ++ Member.encodeAll builder.methods.toList ++
    Attribute.encodeAll builder.attributes.toList

def run (name : String) (steps : List Step) : List (Option UInt16) × ClassBuilder :=
  (steps.mapM apply).run (start name)

end ClassBuilder

end ClassCoupling
