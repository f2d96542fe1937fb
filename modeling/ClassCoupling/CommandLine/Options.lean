import ClassCoupling.Report

/-!
The options of the command: where each of them may stand, what it takes and what
has been chosen by them so far.
-/
namespace ClassCoupling

/-- Why arguments are not accepted. A request for help counts among them. -/
inductive ArgumentFault where
  | helpWanted
  | nothingGiven
  | missingCommand
  | unknownCommand
  | unknownOption
  | badValue
  | givenTwice
  | unwantedValue
deriving DecidableEq, Repr

def ArgumentFault.message : ArgumentFault → String
  | helpWanted => "help"
  | nothingGiven => "no arguments"
  | missingCommand => "a command is missing"
  | unknownCommand => "there is no such command"
  | unknownOption => "there is no such option"
  | badValue => "a value is missing or not possible"
  | givenTwice => "an option is given twice"
  | unwantedValue => "an option takes no value"

def GroupBy.parse? : String → Option GroupBy
  | "package" => some .byPackage
  | "class" => some .byClass
  | _ => none

def ReportFormat.parse? : String → Option ReportFormat
  | "json" => some .json
  | "text" => some .text
  | _ => none

namespace CommandLine

inductive Choice where
  | help
  | config
  | includes
  | excludes
  | noInner
  | groupBy
  | format
  | output
deriving DecidableEq, Repr

namespace Choice

def takesValue : Choice → Bool
  | help | noInner => false
  | _ => true

def longName : Choice → String
  | help => "help"
  | config => "config"
  | includes => "include"
  | excludes => "exclude"
  | noInner => "no-inner-classes"
  | groupBy => "group-by"
  | format => "format"
  | output => "output"

def shortName? : Choice → Option Char
  | help => some 'h'
  | includes => some 'i'
  | excludes => some 'x'
  | groupBy => some 'g'
  | format => some 'f'
  | output => some 'o'
  | config | noInner => none

end Choice

inductive Level where
  | front
  | analyze
  | cycles
deriving DecidableEq, Repr

namespace Level

def options : Level → List Choice
  | front => [.help, .config]
  | analyze => [.help, .config, .includes, .excludes, .noInner, .groupBy, .format, .output]
  | cycles => [.help, .config, .includes, .excludes, .noInner, .format, .output]

def long? (level : Level) (name : String) : Option Choice :=
  level.options.find? fun option => option.longName = name

def short? (level : Level) (name : Char) : Option Choice :=
  level.options.find? fun option => option.shortName? = some name

end Level

structure Chosen where
  config : Option String := none
  paths : List String := []
  includes : List String := []
  excludes : List String := []
  noInner : Bool := false
  groupBy : Option GroupBy := none
  format : Option ReportFormat := none
  output : Option String := none

def pathArgument? (text : String) : Option String := if text = "" then none else some text

def setOnce {α : Type} (current : Option α) (value : Option α) :
    Except ArgumentFault (Option α) :=
  match current, value with
  | some _, _ => .error .givenTwice
  | none, some value => .ok (some value)
  | none, none => .error .badValue

namespace Chosen

def choose (chosen : Chosen) (option : Choice) (value : String) :
    Except ArgumentFault Chosen := do
  match option with
  | .config => return { chosen with config := ← setOnce chosen.config (pathArgument? value) }
  | .output => return { chosen with output := ← setOnce chosen.output (pathArgument? value) }
  | .groupBy => return { chosen with groupBy := ← setOnce chosen.groupBy (GroupBy.parse? value) }
  | .format => return { chosen with format := ← setOnce chosen.format (ReportFormat.parse? value) }
  | .includes => return { chosen with includes := chosen.includes ++ [value] }
  | .excludes => return { chosen with excludes := chosen.excludes ++ [value] }
  | .help | .noInner => return chosen

def addPaths (chosen : Chosen) (paths : List String) : Except ArgumentFault Chosen :=
  if paths.contains "" then .error .badValue
  else .ok { chosen with paths := chosen.paths ++ paths }

end Chosen

end CommandLine

end ClassCoupling
