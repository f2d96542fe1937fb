import ClassCoupling.NameFilter
import ClassCoupling.Volume
import ClassCoupling.Ignore.Rules

/-!
The inputs of an analysis: class files and archives, given as paths or found below
directories. Below a directory every file counts unless an ignore file, there or in
a directory above it, says otherwise; links are not followed there. A file that
several paths lead to is one input, under the first path that leads to it, and inputs
are in the order of their places.
-/
namespace ClassCoupling

inductive InputKind where
  | classFile
  | archive
deriving DecidableEq, Repr

structure Input where
  path : String
  kind : InputKind
deriving DecidableEq, Repr

namespace Input

/-- The kind of a file by the ending of its name. A class file that the filter takes for a
nested class is none. -/
def classify (filter : NameFilter) (path : String) : Option InputKind := do
  let ending ← Path.extension? path
  let ending := String.ofList (ending.toList.map Char.toLower)
  if ending = "class" then
    let name ← Path.fileName? path
    if filter.acceptsInner name then return .classFile else none
  else if ["jar", "zip", "war"].contains ending then return .archive
  else none

def archiveName (input : Input) : Option String :=
  match input.kind with
  | .archive => Path.fileName? input.path
  | .classFile => none

def dropEndings : List Char → List Char
  | 's' :: 's' :: 'a' :: 'l' :: 'c' :: '.' :: rest => dropEndings rest
  | text => text

def className (path : String) : String :=
  let name := (dropEndings path.toList.reverse).reverse
  String.ofList (name.map fun char => if char = '/' || char = '\\' then '.' else char)

end Input

/-! ### Files below a directory -/

structure Search where
  root : String
  place : Place
  rules : Std.TreeMap Place Ignore.Rules

def ignoreName : String := ".ignore"

namespace Volume

def absolute (place : Place) : String := "/" ++ "/".intercalate place

def ignoreRules (volume : Volume) : Std.TreeMap Place Ignore.Rules :=
  volume.items.foldl (fun rules place _ =>
    if place.getLast? = some ignoreName then
      match volume.read .isADirectory (absolute place) with
      | .ok bytes => rules.insert place.dropLast (Ignore.Rules.parse bytes)
      | .error _ => rules
    else rules) ∅

end Volume

namespace Search

def pathOf (search : Search) (names : List String) : String := names.foldl Path.join search.root

def entryPath (search : Search) (names : List String) : List Char :=
  Path.dropStart ['.', '/'] (search.pathOf names).toList

def verdictAt (search : Search) (directory : Place) (base path : String) (isDirectory : Bool) :
    Option Ignore.Verdict := do
  let rules ← search.rules[directory]?
  rules.verdict? base path isDirectory

/-- The beginnings of a list but the whole of it, the longest first. -/
def fronts {α : Type} (items : List α) : List (List α) :=
  (List.range items.length).reverse.map items.take

def verdictBelow? (search : Search) (names : List String) (isDirectory : Bool) :
    Option Ignore.Verdict :=
  (fronts names).findSome? fun front =>
    search.verdictAt (search.place ++ front) (search.pathOf front)
      (String.ofList (search.entryPath names)) isDirectory

def absolutePath (search : Search) (names : List String) : String :=
  let path := search.entryPath names
  let rest :=
    if Path.components search.root = [.here] then path
    else
      Path.dropStart ['/'] (Path.dropStart (Path.dropStart ['.', '/'] search.root.toList) path)
  Path.join (Volume.absolute search.place) (String.ofList rest)

def verdictAbove? (search : Search) (names : List String) (isDirectory : Bool) :
    Option Ignore.Verdict :=
  (fronts search.place).findSome? fun front =>
    search.verdictAt front (Volume.absolute front) (search.absolutePath names) isDirectory

/-- The nearest directory that says anything about an entry decides. -/
def isIgnored (search : Search) (names : List String) (isDirectory : Bool) : Bool :=
  (search.verdictBelow? names isDirectory <|> search.verdictAbove? names isDirectory) ==
    some .ignore

def finds (search : Search) (names : List String) : Bool :=
  !search.isIgnored names false &&
    (fronts names).all fun front => front.isEmpty || !search.isIgnored front true

end Search

/-! ### Collection -/

structure Delivery where
  path : String
  place : Place
deriving DecidableEq, Repr

namespace Volume

/-- The files below a directory. The path of a single dash stands for the standard input,
where no files are. -/
def filesBelow (volume : Volume) (root : String) (place : Place) : List Delivery :=
  if Path.components root = [.name "-"] then []
  else
    let search : Search := { root, place, rules := volume.ignoreRules }
    volume.items.toList.filterMap fun (file, item) =>
      match item with
      | .file _ =>
          let names := file.drop place.length
          if place.isPrefixOf file && search.finds names then
            some { path := search.pathOf names, place := file }
          else none
      | _ => none

def deliveries (volume : Volume) (root : String) : List Delivery :=
  match volume.find root with
  | .ok (place, .directory) => volume.filesBelow root place
  | .ok (place, _) => [{ path := root, place }]
  | .error _ => []

end Volume

def addInput (filter : NameFilter) (inputs : Std.TreeMap Place Input) (delivery : Delivery) :
    Std.TreeMap Place Input :=
  match Input.classify filter delivery.path with
  | some kind => inputs.insertIfNew delivery.place { path := delivery.path, kind }
  | none => inputs

def mergeInputs (filter : NameFilter) (deliveries : List (List Delivery)) : List Input :=
  (deliveries.flatten.foldl (addInput filter) ∅).values

def collectInputs (volume : Volume) (filter : NameFilter) (roots : List String) : List Input :=
  mergeInputs filter (roots.map volume.deliveries)

end ClassCoupling
