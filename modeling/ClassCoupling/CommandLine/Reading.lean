import ClassCoupling.CommandLine.Options

/-!
Arguments one by one, from left to right. An option that takes a value may have it
attached or as the next argument; a value that stands apart is checked only when the
next option or path comes, or at the end, and an option that is not known is
reported before it. Behind two dashes every argument is a path.
-/
namespace ClassCoupling.CommandLine

inductive Pending where
  | nothing
  | option (option : Choice) (value : Option String)
  | paths (paths : List String)

structure Reading where
  chosen : Chosen := {}
  pending : Pending := .nothing
  /-- Two dashes have been read. -/
  onlyPaths : Bool := false

namespace Reading

def settle (reading : Reading) : Except ArgumentFault Chosen :=
  match reading.pending with
  | .nothing => .ok reading.chosen
  | .option _ none => .error .badValue
  | .option option (some value) => reading.chosen.choose option value
  | .paths paths => reading.chosen.addPaths paths.reverse

def awaitsValue (reading : Reading) : Bool :=
  match reading.pending with
  | .option _ none => !reading.onlyPaths
  | _ => false

def option (reading : Reading) (option : Choice) : Except ArgumentFault Reading := do
  let chosen ← reading.settle
  match option with
  | .help => throw .helpWanted
  | .noInner =>
      if chosen.noInner then throw .givenTwice
      else return { reading with chosen := { chosen with noInner := true }, pending := .nothing }
  | option => return { reading with chosen, pending := .option option none }

def optionWith (reading : Reading) (option : Choice) (value : String) :
    Except ArgumentFault Reading := do
  let chosen ← reading.settle
  return { reading with chosen := ← chosen.choose option value, pending := .nothing }

def long (level : Level) (reading : Reading) (text : List Char) :
    Except ArgumentFault Reading := do
  let name := String.ofList (text.takeWhile (· ≠ '='))
  let attached := text.dropWhile (· ≠ '=')
  match level.long? name, attached with
  | none, _ => throw .unknownOption
  | some option, [] => reading.option option
  | some option, _ :: value =>
      if option.takesValue then reading.optionWith option (String.ofList value)
      else throw .unwantedValue

def short (level : Level) (reading : Reading) (name : Char) (rest : List Char) :
    Except ArgumentFault Reading := do
  match level.short? name with
  | none => throw .unknownOption
  | some option =>
      if !option.takesValue then reading.option option
      else
        match rest with
        | [] => reading.option option
        | '=' :: value => reading.optionWith option (String.ofList value)
        | value => reading.optionWith option (String.ofList value)

def path (reading : Reading) (path : String) : Except ArgumentFault Reading := do
  match reading.pending with
  | .paths paths => return { reading with pending := .paths (path :: paths) }
  | _ => return { reading with chosen := ← reading.settle, pending := .paths [path] }

/-- An argument that is neither an option nor, in front of the command, a command: the value
of an option, if one waits for it, or else what `other` makes of it. -/
def plain (other : Reading → String → Except ArgumentFault Reading) (reading : Reading)
    (argument : String) : Except ArgumentFault Reading :=
  match reading.pending, reading.awaitsValue with
  | .option option _, true => .ok { reading with pending := .option option (some argument) }
  | _, _ => other reading argument

def argument (level : Level) (other : Reading → String → Except ArgumentFault Reading)
    (reading : Reading) (argument : String) : Except ArgumentFault Reading :=
  if reading.onlyPaths then other reading argument
  else
    match argument.toList with
    | ['-', '-'] => .ok { reading with onlyPaths := true }
    | '-' :: '-' :: text => reading.long level text
    | '-' :: name :: rest => reading.short level name rest
    | _ => reading.plain other argument

end Reading

end ClassCoupling.CommandLine
