import ClassCoupling.Ascending

/-!
What is known of one class: its versions, name, source, where it was found, its
kind, and the names of the classes it refers to. A class never lists itself.
A placeholder stands for a class that is referred to and was not found.
-/
namespace ClassCoupling

def packageOf (name : String) : String :=
  match name.toList.reverse.dropWhile (· ≠ '.') with
  | [] => "Default"
  | _ :: front => String.ofList front.reverse

structure ClassRecord where
  name : String
  minor : UInt16 := 0
  major : UInt16 := 0
  sourceFile : Option String := none
  origin : Option String := none
  isAbstract : Bool := false
  isInterface : Bool := false
  references : Ascending String := .empty
deriving DecidableEq

namespace ClassRecord

instance : Inhabited ClassRecord := ⟨{ name := "" }⟩

def package (record : ClassRecord) : String := packageOf record.name

/-- The references of a class called `name`, which leave the class itself out. -/
def referencesOf (name : String) (references : List String) : Ascending String :=
  .ofList (references.filter (· ≠ name))

def withReferences (record : ClassRecord) (references : List String) : ClassRecord :=
  { record with references := referencesOf record.name references }

def addReferences (record : ClassRecord) (references : List String) : ClassRecord :=
  record.withReferences (record.references.toList ++ references)

def withOrigin (record : ClassRecord) (origin : String) : ClassRecord :=
  { record with origin := some origin }

def unknownSource : String := "Unknown"

def placeholder (name : String) : ClassRecord :=
  { name, sourceFile := some unknownSource }

/-- Whether a record looks like a placeholder. -/
def isPlaceholder (record : ClassRecord) : Bool :=
  record.major == 0 && record.origin.isNone && record.sourceFile == some unknownSource

theorem placeholder_isPlaceholder (name : String) : (placeholder name).isPlaceholder = true := by
  simp [placeholder, isPlaceholder]

end ClassRecord

end ClassCoupling
