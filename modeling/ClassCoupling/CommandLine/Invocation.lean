import ClassCoupling.CommandLine.Reading

/-!
What the arguments ask for as a whole: a command, with options in front of it and
behind it.
-/
namespace ClassCoupling

open CommandLine

inductive Command where
  | analyze (groupBy : GroupBy)
  | cycles
deriving DecidableEq, Repr

structure Invocation where
  command : Command
  config : Option String
  paths : List String
  includes : List String
  excludes : List String
  noInner : Bool
  format : ReportFormat
  output : Option String
deriving DecidableEq, Repr

namespace Invocation

def level? : String → Option Level
  | "analyze" => some .analyze
  | "cycles" => some .cycles
  | _ => none

def helpName : String := "help"

def isCommand (name : String) : Bool := name = helpName || (level? name).isSome

def help (arguments : List String) : ArgumentFault :=
  match arguments with
  | [] => .helpWanted
  | [name] => if isCommand name then .helpWanted else .unknownCommand
  | _ => .unknownCommand

def ofChosen (level : Level) (config : Option String) (chosen : Chosen) : Invocation where
  command := if level = .cycles then .cycles else .analyze (chosen.groupBy.getD .byPackage)
  config := chosen.config <|> config
  paths := chosen.paths
  includes := chosen.includes
  excludes := chosen.excludes
  noInner := chosen.noInner
  format := chosen.format.getD .json
  output := chosen.output

/-- In front of the command a path is the name of a command that does not exist, or of one
that should stand in front of the dashes. -/
def strayArgument (reading : Reading) (argument : String) : Except ArgumentFault Reading :=
  if reading.onlyPaths && isCommand argument then .error .unknownOption
  else .error .unknownCommand

/-- Reads arguments up to the command, and the arguments of the command. What is pending in
front of the command is checked last. -/
def parseFrom (reading : Reading) : List String → Except ArgumentFault Invocation
  | [] => do
      let chosen ← reading.settle
      throw (if chosen.config.isNone then .nothingGiven else .missingCommand)
  | argument :: rest => do
      if !reading.onlyPaths && !reading.awaitsValue && isCommand argument then
        match level? argument with
        | none => throw (help rest)
        | some level =>
            let inner ← rest.foldlM (Reading.argument level Reading.path) {}
            let chosen ← inner.settle
            let outer ← reading.settle
            return ofChosen level outer.config chosen
      else parseFrom (← reading.argument .front strayArgument argument) rest

def parse (arguments : List String) : Except ArgumentFault Invocation := parseFrom {} arguments

end Invocation

end ClassCoupling
