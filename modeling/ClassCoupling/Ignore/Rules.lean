import ClassCoupling.Path
import ClassCoupling.Text.Utf8
import ClassCoupling.Ignore.Nesting

/-!
The rules of an ignore file. Each line is a pattern for paths below the directory of
the file; one that begins with an exclamation mark keeps what earlier lines
ignore, one that ends in a slash is about directories, and one without another slash
is about names anywhere below. The last line that describes a path decides.
-/
namespace ClassCoupling.Ignore

inductive Verdict where
  | ignore
  | keep
deriving DecidableEq, Repr

structure Rule where
  glob : Glob
  verdict : Verdict
  directoriesOnly : Bool

abbrev Rules := List Rule

def isBlank (char : Char) : Bool :=
  let code := char.toNat
  (0x09 ≤ code && code ≤ 0x0D) || code = 0x20 || code = 0x85 || code = 0xA0 ||
    code = 0x1680 || (0x2000 ≤ code && code ≤ 0x200A) || code = 0x2028 || code = 0x2029 ||
    code = 0x202F || code = 0x205F || code = 0x3000

def dropEnd (drop : Char → Bool) (text : List Char) : List Char :=
  (text.reverse.dropWhile drop).reverse

/-- A line without the blanks at its end; an escaped space there keeps them. -/
def trimLine (line : List Char) : List Char :=
  if ['\\', ' '].isSuffixOf line then line else dropEnd isBlank line

structure Line where
  text : List Char
  verdict : Verdict := .ignore
  anchored : Bool := false
  directoriesOnly : Bool := false

namespace Line

def ofFront (text : List Char) : Line :=
  match text with
  | '\\' :: '!' :: rest => { text := '!' :: rest }
  | '\\' :: '#' :: rest => { text := '#' :: rest }
  | _ =>
      let (verdict, text) := match text with
        | '!' :: rest => (.keep, rest)
        | rest => (.ignore, rest)
      match text with
      | '/' :: rest => { text := rest, verdict, anchored := true }
      | rest => { text := rest, verdict }

def ofEnd (line : Line) : Line :=
  match line.text.reverse with
  | '/' :: '\\' :: front => { line with text := front.reverse, directoriesOnly := true }
  | '/' :: front => { line with text := front.reverse, directoriesOnly := true }
  | _ => line

/-- The pattern with the directories it may stand below. Two stars at the end describe what
is in a directory and not the directory itself. -/
def pattern (line : Line) : List Char :=
  let anywhere := !line.anchored && !line.text.contains '/' && line.text ≠ ['*', '*']
  let text := if anywhere then ['*', '*', '/'] ++ line.text else line.text
  if ['/', '*', '*'].isSuffixOf text then text ++ ['/', '*'] else text

end Line

def Rule.parse? (line : List Char) : Option Rule := do
  if line.head? = some '#' then none
  else
    let text := trimLine line
    if text.isEmpty then none
    else
      let line := (Line.ofFront text).ofEnd
      let glob ← Glob.parse? line.pattern
      return { glob, verdict := line.verdict, directoriesOnly := line.directoriesOnly }

def linesAfter (line : List UInt8) (found : List (List UInt8)) : List UInt8 → List (List UInt8)
  | [] => (if line.isEmpty then found else line.reverse :: found).reverse
  | byte :: bytes =>
      if byte = 0x0A then
        let line := match line with
          | 0x0D :: rest => rest
          | line => line
        linesAfter [] (line.reverse :: found) bytes
      else linesAfter (byte :: line) found bytes

def textsOf : List (List UInt8) → List (List Char)
  | [] => []
  | line :: lines =>
      match Utf8.decode? line with
      | some text => text.toList :: textsOf lines
      | none => []

def byteOrderMark : Char := '\uFEFF'

/-- The rules of a file, the last first. A file has none at all when the pattern of one is
nested too deep. -/
def Rules.parse (bytes : List UInt8) : Rules :=
  let texts := match textsOf (linesAfter [] [] bytes) with
    | first :: rest => first.dropWhile (· = byteOrderMark) :: rest
    | [] => []
  let rules := texts.filterMap Rule.parse?
  if rules.any fun rule => rule.glob.isTooDeep then [] else rules.reverse

/-- The part of a path below the directory `base` of an ignore file. A path without a
slash, or one seen from the current directory, is below it as it stands. -/
def relative (base path : List Char) : List Char :=
  let base := Path.dropStart ['.', '/'] base
  let path := Path.dropStart ['.', '/'] path
  if Path.components (String.ofList base) = [.here] || !path.contains '/' then path
  else if base.isPrefixOf path then Path.dropStart ['/'] (path.drop base.length)
  else path

def Rules.verdict? (rules : Rules) (base path : String) (isDirectory : Bool) : Option Verdict :=
  let bytes := (String.ofList (relative base.toList path.toList)).toUTF8.data
  let decides := fun rule : Rule =>
    (!rule.directoriesOnly || isDirectory) && rule.glob.matches bytes
  (rules.find? decides).map Rule.verdict

end ClassCoupling.Ignore
