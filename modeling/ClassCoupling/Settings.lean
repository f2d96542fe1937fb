import ClassCoupling.NameFilter
import ClassCoupling.Json.Parser

/-!
What a JSON file can set: the paths to analyse and the filter of class names. A
member that is missing has its default, one that is set twice or to a value of the
wrong kind is refused, and members of other names are passed over.
-/
namespace ClassCoupling

/-- The value of a member that may be missing; `none` when it is set twice or wrongly. -/
def settingOr {α : Type} (default : α) (decode : Json → Option α) (name : String)
    (members : List (String × Json)) : Option α :=
  match members.filter fun member => member.1 = name with
  | [] => some default
  | [(_, value)] => decode value
  | _ => none

namespace NameFilter

def includeInnerName : String := "include_inner_classes"
def includesName : String := "includes"
def excludesName : String := "excludes"

def ofMembers? (members : List (String × Json)) : Option NameFilter := do
  let includeInner ← settingOr true Json.bool? includeInnerName members
  let includes ← settingOr [] Json.strings? includesName members
  let excludes ← settingOr [] Json.strings? excludesName members
  return { includeInner, includes, excludes }

/-- A filter is an object, or an array of the members in their order; those missing at
the end have their defaults. -/
def ofJson? : Json → Option NameFilter
  | .object members => ofMembers? members
  | .array items =>
      if items.length ≤ 3 then
        ofMembers? ([includeInnerName, includesName, excludesName].zip items)
      else none
  | _ => none

def rulesFor (name : String) : Json.Rules :=
  if [includeInnerName, includesName, excludesName].contains name then .strict else .lenient

def parse? (text : String) : Option NameFilter := do
  ofJson? (← Json.parse? rulesFor text)

end NameFilter

structure Settings where
  paths : List String := []
  filter : NameFilter := {}
deriving DecidableEq, Repr, Inhabited

namespace Settings

def pathsName : String := "paths"

def ofJson? : Json → Option Settings
  | .object members => do
      let paths ← settingOr [] Json.strings? pathsName members
      let filter ← NameFilter.ofMembers? members
      return { paths, filter }
  | _ => none

def parse? (text : String) : Option Settings := do
  ofJson? (← Json.parse? (fun _ => .strict) text)

end Settings

end ClassCoupling
