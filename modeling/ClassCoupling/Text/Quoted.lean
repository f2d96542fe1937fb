import ClassCoupling.Text.Visible

/-!
Texts in quotation marks. Such marks, backslashes and the common controls get a
backslash, apostrophes stay as they are; a character that would not show, or would
print on top of the one before, is written as its code point.
-/
namespace ClassCoupling.Text

def codePoint (char : Char) : List Char :=
  ['\\', 'u', '\x7b'] ++ Nat.toDigits 16 char.toNat ++ ['\x7d']

def escape (char : Char) : List Char :=
  if char = '\x00' then ['\\', '0']
  else if char = '\t' then ['\\', 't']
  else if char = '\r' then ['\\', 'r']
  else if char = '\n' then ['\\', 'n']
  else if char = '\\' || char = '"' then ['\\', char]
  else if isExtending char || !isVisible char then codePoint char
  else [char]

def quote (text : String) : String :=
  String.ofList ('"' :: text.toList.flatMap escape ++ ['"'])

def quoteAll (texts : List String) : String :=
  "[" ++ ", ".intercalate (texts.map quote) ++ "]"

end ClassCoupling.Text
