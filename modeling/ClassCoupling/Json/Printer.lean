import ClassCoupling.Fault
import ClassCoupling.Json.Basic

/-!
JSON as text over several lines, each level two spaces deeper. An array or an
object without content stays on its line. In strings only the quotation mark, the
backslash and the controls are escaped.
-/
namespace ClassCoupling.Json

def escape (char : Char) : List Char :=
  if char = '"' || char = '\\' then ['\\', char]
  else if char = '\x08' then ['\\', 'b']
  else if char = '\t' then ['\\', 't']
  else if char = '\n' then ['\\', 'n']
  else if char = '\x0c' then ['\\', 'f']
  else if char = '\r' then ['\\', 'r']
  else if char.toNat < 0x20 then '\\' :: 'u' :: (Fault.hexDigits 4 char.toNat).toList
  else [char]

def quoted (text : String) : String :=
  String.ofList ('"' :: text.toList.flatMap escape ++ ['"'])

def newline (level : Nat) : String := String.ofList ('\n' :: List.replicate (2 * level) ' ')

mutual

def write (level : Nat) (text : String) : Json → String
  | .null => text ++ "null"
  | .bool value => text ++ toString value
  | .number digits => text ++ digits
  | .string content => text ++ quoted content
  | .array [] => text ++ "[]"
  | .array (item :: items) =>
      let first := write (level + 1) (text ++ "[" ++ newline (level + 1)) item
      writeItems (level + 1) first items ++ newline level ++ "]"
  | .object [] => text ++ "\x7b\x7d"
  | .object ((name, value) :: members) =>
      let first := write (level + 1)
        (text ++ "\x7b" ++ newline (level + 1) ++ quoted name ++ ": ") value
      writeMembers (level + 1) first members ++ newline level ++ "\x7d"

def writeItems (level : Nat) (text : String) : List Json → String
  | [] => text
  | item :: items => writeItems level (write level (text ++ "," ++ newline level) item) items

def writeMembers (level : Nat) (text : String) : List (String × Json) → String
  | [] => text
  | (name, value) :: members =>
      writeMembers level
        (write level (text ++ "," ++ newline level ++ quoted name ++ ": ") value) members

end

def pretty (json : Json) : String := write 0 "" json

end ClassCoupling.Json
