/-!
Which class names an analysis keeps: prefixes to include, prefixes to exclude,
and whether nested classes count.
-/
namespace ClassCoupling

structure NameFilter where
  includeInner : Bool := true
  includes : List String := []
  excludes : List String := []
deriving DecidableEq, Repr, Inhabited

namespace NameFilter

/-- A nested class has a dollar sign in its name; one whose name begins with a
dollar sign does not count as nested. -/
def isInner (name : String) : Bool :=
  match name.toList with
  | [] => false
  | first :: rest => first != '$' && rest.contains '$'

def acceptsInner (filter : NameFilter) (name : String) : Bool :=
  filter.includeInner || !isInner name

def beginsWith (name start : String) : Bool := start.toList.isPrefixOf name.toList

def acceptsStart (filter : NameFilter) (name : String) : Bool :=
  (filter.includes.isEmpty || filter.includes.any (beginsWith name)) &&
    !filter.excludes.any (beginsWith name)

def accepts (filter : NameFilter) (name : String) : Bool :=
  filter.acceptsStart name && filter.acceptsInner name

theorem accepts_default (name : String) : ({} : NameFilter).accepts name = true := by
  simp [accepts, acceptsStart, acceptsInner]

end NameFilter

end ClassCoupling
