import ClassCoupling.ClassFile.Annotations
import ClassCoupling.ClassFile.Basic
import ClassCoupling.ClassRecord
import ClassCoupling.NameFilter

/-!
The class names a class file refers to, and the record made of a file.
Names come from the super class and interfaces, the descriptors of members, the
class constants of the pool and the annotations. They are brought to one form,
dots between the parts and no closing semicolons, before the filter is asked.
-/
namespace ClassCoupling.ClassFile

def dotted (name : String) : String :=
  String.ofList (name.toList.map fun char => if char = '/' then '.' else char)

def withoutSemicolons (name : String) : String :=
  String.ofList (name.toList.reverse.dropWhile (· = ';')).reverse

def normalize? (name : String) : Option String :=
  let plain := dotted (withoutSemicolons name)
  if plain = "" then none else some plain

def name (file : ClassFile) : Except Fault String :=
  dotted <$> file.pool.className file.thisClass

def parentNames (file : ClassFile) : Except Fault (List String) :=
  (if file.superClass = 0 then file.interfaces else file.superClass :: file.interfaces).mapM
    file.pool.className

def descriptorNames (file : ClassFile) : Except Fault (List String) := do
  return (← (file.fields ++ file.methods).mapM (Member.types file.pool)).flatten

/-- The first source attribute names the source with its first two bytes. -/
def sourceFile (file : ClassFile) : Except Fault (Option String) :=
  match file.attributes.find? (Attribute.isNamed file.pool Attribute.sourceFile) with
  | none => .ok none
  | some item =>
      match item.payload with
      | high :: low :: _ =>
          some <$> file.pool.text (UInt16.ofNat (high.toNat * 256 + low.toNat))
      | _ => .error (.truncated 0 2)

/-- The class that the name of a class constant stands for: an array gives its
element class, and an array of a type of one letter gives none. -/
def constantName? (name : String) : Option String :=
  if name.toList.head? = some '[' then Descriptor.elementClass? name else some name

def classNameIndex? : Constant → Option UInt16
  | .classInfo nameIndex => some nameIndex
  | _ => none

def constantNames (file : ClassFile) : Except Fault (List String) := do
  let indices := file.pool.constants.filterMap classNameIndex?
  return (← indices.mapM file.pool.text).filterMap constantName?

/-- The attributes that hold annotations: those of the class, then one of each
field and of each method that has any. -/
def annotationAttributes (file : ClassFile) : List Attribute :=
  file.attributes.filter (Attribute.isNamed file.pool Attribute.visibleAnnotations) ++
    (file.fields ++ file.methods).filterMap (Member.annotations? file.pool)

def namesInAnnotations (pool : Pool) (item : Attribute) : Except Fault (List String) := do
  let annotations ← AnnotationTree.parse item.payload
  let descriptors ← (annotations.flatMap AnnotationTree.typeIndices).mapM pool.text
  return descriptors.filterMap Descriptor.elementClass?

def annotationNames (file : ClassFile) : Except Fault (List String) := do
  return (← file.annotationAttributes.mapM (namesInAnnotations file.pool)).flatten

/-- The record of a file: what it refers to is normalised, differs from the class
itself and passes the filter. -/
def toRecord (file : ClassFile) (filter : NameFilter) (origin : Option String) :
    Except Fault ClassRecord := do
  let name ← file.name
  let parents ← file.parentNames
  let inDescriptors ← file.descriptorNames
  let sourceFile ← file.sourceFile
  let inConstants ← file.constantNames
  let inAnnotations ← file.annotationNames
  let references := (parents ++ inDescriptors ++ inConstants ++ inAnnotations).filterMap normalize?
  return {
    name
    minor := file.minor
    major := file.major
    sourceFile
    origin
    isAbstract := file.isAbstract
    isInterface := file.isInterface
    references := ClassRecord.referencesOf name (references.filter filter.accepts) }

def decode (filter : NameFilter) (origin : Option String) (bytes : List UInt8) :
    Except Fault ClassRecord := do
  let file ← ClassFile.read.run bytes
  file.toRecord filter origin

end ClassCoupling.ClassFile
