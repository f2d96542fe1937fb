/-!
JSON values. Object members keep their order and their repetitions, and a number
keeps the text it is written with.
-/
namespace ClassCoupling

inductive Json where
  | null
  | bool (value : Bool)
  | number (text : String)
  | string (text : String)
  | array (items : List Json)
  | object (members : List (String × Json))

namespace Json

def ofNat (value : Nat) : Json := .number (toString value)

def ofOption : Option String → Json
  | none => .null
  | some text => .string text

def strings (texts : List String) : Json := .array (texts.map .string)

def bool? : Json → Option Bool
  | .bool value => some value
  | _ => none

def string? : Json → Option String
  | .string text => some text
  | _ => none

def strings? : Json → Option (List String)
  | .array items => items.mapM string?
  | _ => none

end Json

end ClassCoupling
