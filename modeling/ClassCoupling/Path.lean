/-!
Paths as texts. A path is a sequence of components: empty pieces between slashes and
single dots do not count, except that a path may begin with a slash or with a
dot.
-/
namespace ClassCoupling.Path

inductive Component where
  | root
  | here
  | up
  | name (text : String)
deriving DecidableEq, Repr

def isRooted (path : String) : Bool := path.toList.head? == some '/'

def component? (piece : List Char) : Option Component :=
  if piece = [] || piece = ['.'] then none
  else if piece = ['.', '.'] then some .up
  else some (.name (String.ofList piece))

def firstComponent? (piece : List Char) : Option Component :=
  if piece = ['.'] then some .here else component? piece

def components (path : String) : List Component :=
  match path.toList.splitOn '/' with
  | [] => []
  | first :: pieces =>
      let front := if isRooted path then some .root else firstComponent? first
      front.toList ++ pieces.filterMap component?

def fileName? (path : String) : Option String :=
  match (components path).getLast? with
  | some (.name text) => some text
  | _ => none

/-- What follows the last dot of a file name, unless that dot is its first character. -/
def extension? (path : String) : Option String := do
  let name ← fileName? path
  match (name.toList.splitOn '.').reverse with
  | last :: front :: rest => if (front :: rest) = [[]] then none else some (String.ofList last)
  | _ => none

def ends (path : String) : List Nat :=
  let pieces := (path.toList.splitOn '/').zipIdx
  let step := fun (found : List Nat × Nat) (entry : List Char × Nat) =>
    let stop := found.2 + entry.1.length
    let counts := entry.1 ≠ [] && (entry.1 ≠ ['.'] || entry.2 = 0)
    (if counts then stop :: found.1 else found.1, stop + 1)
  (pieces.foldl step ([], 0)).1.reverse

def parent? (path : String) : Option String :=
  match (ends path).reverse with
  | [] => none
  | [_] => some (if isRooted path then "/" else "")
  | _ :: stop :: _ => some (String.ofList (path.toList.take stop))

/-- A path below another. A path that begins with a slash stands for itself. -/
def join (base path : String) : String :=
  if isRooted path || base = "" then path
  else if base.toList.getLast? = some '/' then base ++ path
  else base ++ "/" ++ path

def dropStart (start text : List Char) : List Char :=
  if start.isPrefixOf text then text.drop start.length else text

end ClassCoupling.Path
