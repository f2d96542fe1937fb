import ClassCoupling.Analyzer
import ClassCoupling.Settings
import ClassCoupling.CommandLine.Invocation

/-!
The program: it takes its settings from a file and from its arguments, analyses the
inputs, and writes a report to its output or to a file. What it does is a function of
its arguments, of a few variables and of the files.
-/
namespace ClassCoupling

structure Environment where
  config : Option String := none
  configHome : Option String := none
  home : Option String := none

inductive RunFault where
  | noConfigDirectory
  | unreadableConfig (path : String)
  | brokenConfig (path : String)
  | noPaths
  | noDirectory (path : String)
  | unwritableReport (path : String)
deriving DecidableEq, Repr

def RunFault.message : RunFault → String
  | noConfigDirectory => "Failed to resolve config directory"
  | unreadableConfig path => "Failed to read config file: " ++ path
  | brokenConfig path => "Failed to parse config file: " ++ path
  | noPaths =>
      "No input paths given (pass PATH arguments or set \"paths\" in the config file)"
  | noDirectory path => "Failed to create directory: " ++ path
  | unwritableReport path => "Failed to write report: " ++ path

namespace Environment

def configDirectory? (environment : Environment) : Option String :=
  match environment.configHome.filter Path.isRooted with
  | some path => some path
  | none => (environment.home.filter (· ≠ "")).map fun home => Path.join home ".config"

def defaultConfig? (environment : Environment) : Option String :=
  environment.configDirectory?.map fun directory =>
    Path.join (Path.join directory "class-deps") "config.json"

end Environment

namespace Settings

def merge (settings : Settings) (invocation : Invocation) : Settings where
  paths := settings.paths ++ invocation.paths
  filter :=
    { includeInner := settings.filter.includeInner && !invocation.noInner
      includes := settings.filter.includes ++ invocation.includes
      excludes := settings.filter.excludes ++ invocation.excludes }

def load (volume : Volume) (path : String) : Except RunFault Settings := do
  match volume.read .isADirectory path with
  | .error _ => throw (.unreadableConfig path)
  | .ok bytes =>
      match Utf8.decode? bytes with
      | none => throw (.unreadableConfig path)
      | some text =>
          match parse? text with
          | none => throw (.brokenConfig path)
          | some settings => return settings

/-- The file to load: the one in the arguments, or else the one in the variable, or else the
usual one if it is there. -/
def file? (volume : Volume) (environment : Environment) (argument : Option String) :
    Except RunFault (Option String) :=
  match argument <|> environment.config with
  | some path => .ok (some path)
  | none =>
      match environment.defaultConfig? with
      | none => .error .noConfigDirectory
      | some path => .ok (if volume.isThere path then some path else none)

def resolve (volume : Volume) (environment : Environment) (invocation : Invocation) :
    Except RunFault Settings := do
  let base ←
    match ← file? volume environment invocation.config with
    | some path => load volume path
    | none => pure {}
  let settings := base.merge invocation
  if settings.paths.isEmpty then throw .noPaths else return settings

def analyzer (settings : Settings) : Analyzer Unit :=
  { paths := settings.paths, filter := settings.filter }

end Settings

namespace Invocation

def render (invocation : Invocation) (analysis : Analysis) : String :=
  match invocation.command with
  | .analyze choice => (analysis.report choice).render invocation.format
  | .cycles => analysis.cycleReport.render invocation.format

def report (invocation : Invocation) (environment : Environment) (volume : Volume) :
    Except RunFault String := do
  let settings ← Settings.resolve volume environment invocation
  return invocation.render (settings.analyzer.analyze volume)

end Invocation

def reportDirectory (path : String) : String := (Path.parent? path).getD ""

namespace Volume

def writeReport (volume : Volume) (path content : String) : Volume × Option RunFault :=
  let directory := reportDirectory path
  match volume.makeDirectories directory with
  | (volume, some _) => (volume, some (.noDirectory directory))
  | (volume, none) =>
      match volume.write path (Utf8.encode content) with
      | .ok volume => (volume, none)
      | .error _ => (volume, some (.unwritableReport path))

end Volume

inductive RunEnding where
  | done
  | refused (fault : ArgumentFault)
  | failed (fault : RunFault)
deriving DecidableEq, Repr

/-- Help that is asked for is not a failure. -/
def RunEnding.exitCode : RunEnding → UInt32
  | done => 0
  | refused .helpWanted => 0
  | refused _ => 2
  | failed _ => 1

structure RunResult where
  ending : RunEnding
  output : String := ""
  volume : Volume

def endLine (text : String) : String :=
  if text.toList.getLast? = some '\n' then text else text ++ "\n"

def Invocation.run (invocation : Invocation) (environment : Environment) (volume : Volume) :
    RunResult :=
  match invocation.report environment volume with
  | .error fault => { ending := .failed fault, volume }
  | .ok content =>
      match invocation.output with
      | none => { ending := .done, output := endLine content, volume }
      | some path =>
          match volume.writeReport path content with
          | (volume, none) => { ending := .done, volume }
          | (volume, some fault) => { ending := .failed fault, volume }

def runProgram (arguments : List String) (environment : Environment) (volume : Volume) :
    RunResult :=
  match Invocation.parse arguments with
  | .error fault => { ending := .refused fault, volume }
  | .ok invocation => invocation.run environment volume

end ClassCoupling
