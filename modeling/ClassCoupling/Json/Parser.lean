import ClassCoupling.Json.Basic
import ClassCoupling.Json.Numeral

/-!
Reading JSON. The reader walks over the text once with a stack of the arrays and
objects that are still open, so that nesting costs no more than length. How closely a
value is looked at depends on the outermost member it stands in: a member that
matters is read strictly, and one that is passed over may hold escapes and
numbers that stand for nothing.
-/
namespace ClassCoupling.Json

structure Rules where
  pairs : Bool := true
  finite : Bool := true
  depth : Option Nat := some 127

def Rules.strict : Rules := {}

def Rules.lenient : Rules := { pairs := false, finite := false, depth := none }

def isBlank (char : Char) : Bool :=
  char = ' ' || char = '\t' || char = '\n' || char = '\r'

def skipBlank (text : List Char) : List Char := text.dropWhile isBlank

def hexValue? (char : Char) : Option Nat :=
  if char.isDigit then some (char.toNat - '0'.toNat)
  else if 'a' ≤ char && char ≤ 'f' then some (char.toNat - 'a'.toNat + 10)
  else if 'A' ≤ char && char ≤ 'F' then some (char.toNat - 'A'.toNat + 10)
  else none

def unit? (digits : List Char) : Option Nat := do
  let values ← digits.mapM hexValue?
  return values.foldl (fun unit value => unit * 16 + value) 0

def simpleEscape? : Char → Option Char
  | '"' => some '"'
  | '\\' => some '\\'
  | '/' => some '/'
  | 'b' => some '\x08'
  | 'f' => some '\x0c'
  | 'n' => some '\n'
  | 'r' => some '\r'
  | 't' => some '\t'
  | _ => none

def isHigh (unit : Nat) : Bool := 0xD800 ≤ unit && unit < 0xDC00
def isLow (unit : Nat) : Bool := 0xDC00 ≤ unit && unit < 0xE000

structure Spelling where
  found : List Char := []
  waiting : Option Nat := none

def Spelling.settle (rules : Rules) (spelling : Spelling) : Option Spelling :=
  match spelling.waiting with
  | none => some spelling
  | some _ =>
      if rules.pairs then none
      else some { found := '\uFFFD' :: spelling.found }

def Spelling.char (rules : Rules) (spelling : Spelling) (char : Char) : Option Spelling := do
  let settled ← spelling.settle rules
  return { found := char :: settled.found }

def Spelling.unit (rules : Rules) (spelling : Spelling) (unit : Nat) : Option Spelling := do
  match spelling.waiting, isLow unit with
  | some high, true =>
      let code := 0x10000 + (high - 0xD800) * 0x400 + (unit - 0xDC00)
      return { found := Char.ofNat code :: spelling.found }
  | _, _ =>
      let settled ← spelling.settle rules
      if isHigh unit then return { settled with waiting := some unit }
      else if isLow unit then
        if rules.pairs then none else return { found := '\uFFFD' :: settled.found }
      else return { found := Char.ofNat unit :: settled.found }

def readString (rules : Rules) (spelling : Spelling) :
    List Char → Option (String × List Char)
  | [] => none
  | '"' :: text => do
      let settled ← spelling.settle rules
      return (String.ofList settled.found.reverse, text)
  | '\\' :: 'u' :: first :: second :: third :: fourth :: text => do
      let unit ← unit? [first, second, third, fourth]
      let spelling ← spelling.unit rules unit
      readString rules spelling text
  | '\\' :: mark :: text => do
      let char ← simpleEscape? mark
      let spelling ← spelling.char rules char
      readString rules spelling text
  | char :: text => do
      if char = '\\' || char.toNat < 0x20 then none
      else
        let spelling ← spelling.char rules char
        readString rules spelling text

def readNumber (rules : Rules) (text : List Char) : Option (Json × List Char) := do
  let (numeral, rest) ← Numeral.read? text
  if rules.finite && !numeral.isFinite then none
  else return (.number (String.ofList (text.take (text.length - rest.length))), rest)

def after? : List Char → List Char → Option (List Char)
  | [], text => some text
  | expected :: word, char :: text => if expected = char then after? word text else none
  | _ :: _, [] => none

def readScalar (rules : Rules) (text : List Char) : Option (Json × List Char) :=
  match text with
  | '"' :: text => do
      let (content, rest) ← readString rules {} text
      return (.string content, rest)
  | 'n' :: text => do return (.null, ← after? ['u', 'l', 'l'] text)
  | 't' :: text => do return (.bool true, ← after? ['r', 'u', 'e'] text)
  | 'f' :: text => do return (.bool false, ← after? ['a', 'l', 's', 'e'] text)
  | text => readNumber rules text

/-- An array or an object that is still open: what it holds so far, the latest first, and
for an object the name whose value comes next. -/
inductive Frame where
  | array (items : List Json)
  | object (members : List (String × Json)) (name : String)

structure Reading where
  rules : Rules
  stack : List Frame := []

def Reading.mayOpen (reading : Reading) : Bool :=
  match reading.rules.depth with
  | none => true
  | some limit => reading.stack.length < limit

/-- Reads a name and its colon and waits for its value. The names of the outermost object
are read strictly and choose the rules for their values. -/
def Reading.name (rulesFor : String → Rules) (reading : Reading)
    (members : List (String × Json)) (text : List Char) : Option (Reading × List Char) :=
  match skipBlank text with
  | '"' :: text => do
      let outermost := reading.stack.isEmpty
      let (name, text) ← readString (if outermost then .strict else reading.rules) {} text
      match skipBlank text with
      | ':' :: text =>
          let rules := if outermost then rulesFor name else reading.rules
          return ({ rules, stack := .object members name :: reading.stack }, text)
      | _ => none
  | _ => none

mutual

def readValue (rulesFor : String → Rules) :
    Nat → Reading → List Char → Option (Json × List Char)
  | 0, _, _ => none
  | steps + 1, reading, text =>
      match skipBlank text with
      | '[' :: text =>
          if reading.mayOpen then
            match skipBlank text with
            | ']' :: text => finish rulesFor steps reading (.array []) text
            | text =>
                readValue rulesFor steps { reading with stack := .array [] :: reading.stack } text
          else none
      | '\x7b' :: text =>
          if reading.mayOpen then
            match skipBlank text with
            | '\x7d' :: text => finish rulesFor steps reading (.object []) text
            | text =>
                match reading.name rulesFor [] text with
                | some (reading, text) => readValue rulesFor steps reading text
                | none => none
          else none
      | text =>
          match readScalar reading.rules text with
          | some (value, text) => finish rulesFor steps reading value text
          | none => none

def finish (rulesFor : String → Rules) :
    Nat → Reading → Json → List Char → Option (Json × List Char)
  | 0, _, _, _ => none
  | steps + 1, reading, value, text =>
      match reading.stack with
      | [] => some (value, text)
      | .array items :: stack =>
          match skipBlank text with
          | ',' :: text =>
              readValue rulesFor steps
                { reading with stack := .array (value :: items) :: stack } text
          | ']' :: text =>
              finish rulesFor steps { reading with stack }
                (.array (value :: items).reverse) text
          | _ => none
      | .object members name :: stack =>
          let members := (name, value) :: members
          match skipBlank text with
          | ',' :: text =>
              match Reading.name rulesFor { reading with stack } members text with
              | some (reading, text) => readValue rulesFor steps reading text
              | none => none
          | '\x7d' :: text =>
              finish rulesFor steps { reading with stack } (.object members.reverse) text
          | _ => none

end

/-- The value a text spells, with nothing but blanks around it. Every step takes a
character or ends a value, so twice the length is enough steps. -/
def parse? (rulesFor : String → Rules) (text : String) : Option Json := do
  let chars := text.toList
  let (value, rest) ← readValue rulesFor (2 * chars.length + 2) { rules := .strict } chars
  if (skipBlank rest).isEmpty then return value else none

end ClassCoupling.Json
