import ClassCoupling.Cursor

/-!
Annotation payloads. An annotation is a type and a run of named values; a value
is a scalar, an enum constant, a class literal, an annotation, or an array of
unnamed values. Only what can name a type is kept apart: an array leaves its
elements in its own place, so a value that was read is never an array. Arrays
and annotations may nest up to a limit, which bounds the recursion.
-/
namespace ClassCoupling

inductive AnnotationValue where
  | scalar (tag : UInt8) (index : UInt16)
  | classLiteral (typeIndex : UInt16)
  | enumConstant (typeIndex : UInt16)
  | nested (typeIndex : UInt16) (values : List AnnotationValue)
deriving Repr

structure AnnotationTree where
  typeIndex : UInt16
  values : List AnnotationValue
deriving Repr

namespace AnnotationValue

/-- The type a value names itself, apart from those of the values inside it. -/
def typeIndex? : AnnotationValue → Option UInt16
  | scalar _ _ => none
  | classLiteral index | enumConstant index | nested index _ => some index

mutual

def typeIndices : AnnotationValue → List UInt16
  | scalar _ _ => []
  | classLiteral index | enumConstant index => [index]
  | nested index values => index :: typeIndicesOfAll values

def typeIndicesOfAll : List AnnotationValue → List UInt16
  | [] => []
  | value :: rest => typeIndices value ++ typeIndicesOfAll rest

end

end AnnotationValue

namespace AnnotationTree

def maxNesting : Nat := 128

def typeIndices (tree : AnnotationTree) : List UInt16 :=
  tree.typeIndex :: AnnotationValue.typeIndicesOfAll tree.values

def runsAfter (run : Reader (List AnnotationValue)) :
    Nat → List AnnotationValue → Reader (List AnnotationValue)
  | 0, found => pure found.reverse
  | count + 1, found => do
      let values ← run
      runsAfter run count (values.reverseAux found)

/-- A counted run of values with `room` levels of nesting left; the values of an
annotation are named, those of an array are not. -/
def readValues : Nat → Bool → Reader (List AnnotationValue)
  | 0, _ => do throw (.annotationTooDeep (← Reader.offset) maxNesting)
  | room + 1, named => do
      let count ← Reader.u16
      runsAfter
        (do
          if named then Reader.skip 2
          let tag ← Reader.u8
          if tag = 'e'.toUInt8 then
            let typeIndex ← Reader.u16
            Reader.skip 2
            return [.enumConstant typeIndex]
          else if tag = 'c'.toUInt8 then
            return [.classLiteral (← Reader.u16)]
          else if tag = '@'.toUInt8 then
            let typeIndex ← Reader.u16
            return [.nested typeIndex (← readValues room true)]
          else if tag = '['.toUInt8 then
            readValues room false
          else
            return [.scalar tag (← Reader.u16)])
        count.toNat []

def read : Reader AnnotationTree := do
  let typeIndex ← Reader.u16
  return ⟨typeIndex, ← readValues (maxNesting + 1) true⟩

def readAll : Reader (List AnnotationTree) := Reader.counted read

/-- The annotations of a payload; bytes after them are ignored. -/
def parse (payload : List UInt8) : Except Fault (List AnnotationTree) := readAll.run payload

end AnnotationTree

end ClassCoupling
