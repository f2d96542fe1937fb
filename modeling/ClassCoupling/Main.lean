import ClassCoupling.Program

/-!
The command line. The files that a run looks at are read into a volume, the report is
made from the volume, and it is printed or written. What is decided is decided by the
pure part of the library.
-/
namespace ClassCoupling.Main

def usage : String :=
  "Usage: class-deps [--config PATH] (analyze | cycles) [OPTION...] [PATH...]\n\n" ++
    "  --config PATH            settings file\n" ++
    "  -i, --include START      names that start so count\n" ++
    "  -x, --exclude START      names that start so do not count\n" ++
    "  --no-inner-classes       nested classes do not count\n" ++
    "  -g, --group-by KIND      package or class (analyze only)\n" ++
    "  -f, --format FORMAT      json or text\n" ++
    "  -o, --output PATH        file for the report\n" ++
    "  -h, --help               this text"

def typeAt? (place : Place) : IO (Option IO.FS.FileType) := do
  let here ← IO.currentDir
  match ← (here / Volume.absolute place).symlinkMetadata.toBaseIO with
  | .ok found => return some found.type
  | .error _ => return none

/-- Reads what is at a place into the volume. A link leads to where the last of the links
behind it leads. -/
def loadItem (withContent : Bool) (volume : Volume) (place : Place) : IO Volume := do
  let path := Volume.absolute place
  match ← typeAt? place with
  | some .dir => return volume.put place .directory
  | some .file =>
      if withContent then
        match ← (IO.FS.readBinFile path).toBaseIO with
        | .ok bytes => return volume.put place (.file bytes.toList)
        | .error _ => return volume
      else return volume.put place (.file [])
  | some .symlink =>
      match ← (IO.FS.realPath path).toBaseIO with
      | .ok target => return volume.put place (.link target.toString)
      | .error _ => return volume.put place (.link "")
  | _ => return volume

partial def loadSteps (volume : Volume) (place : Place) : List String → IO (Volume × Place)
  | [] => return (volume, place)
  | step :: rest => do
      if step = "." then loadSteps volume place rest
      else if step = ".." then loadSteps volume place.dropLast rest
      else
        let next := place ++ [step]
        let volume ← loadItem true volume next
        match volume.item? next with
        | some .directory =>
            loadSteps (← loadItem true volume (next ++ [ignoreName])) next rest
        | some (.link "") => return (volume, next)
        | some (.link target) => loadSteps volume [] (Volume.steps target ++ rest)
        | _ => loadSteps volume next rest

def loadPath (volume : Volume) (path : String) : IO (Volume × Place) :=
  loadSteps volume (if Path.isRooted path then [] else volume.current) (Volume.steps path)

def isRead (name : String) : Bool := name = ignoreName || (Input.classify {} name).isSome

partial def loadBelow (volume : Volume) (place : Place) : IO Volume := do
  let here ← IO.currentDir
  match ← (here / Volume.absolute place).readDir.toBaseIO with
  | .error _ => return volume
  | .ok entries =>
      entries.foldlM (fun volume entry => do
        let next := place ++ [entry.fileName]
        let volume ← loadItem (isRead entry.fileName) volume next
        match volume.item? next with
        | some .directory => loadBelow volume next
        | _ => return volume) volume

def loadTree (volume : Volume) (path : String) : IO Volume := do
  let (volume, place) ← loadPath volume path
  match volume.item? place with
  | some .directory => loadBelow volume place
  | _ => return volume

def load (invocation : Invocation) (environment : Environment) : IO Volume := do
  let here := Volume.steps (← IO.currentDir).toString
  let (volume, _) ← loadSteps {} [] here
  let volume := { volume with current := here }
  let files := [invocation.config, environment.config, environment.defaultConfig?]
  let volume ← (files.filterMap id).foldlM (fun volume path => Prod.fst <$> loadPath volume path)
    volume
  match Settings.resolve volume environment invocation with
  | .ok settings => settings.paths.foldlM loadTree volume
  | .error _ => return volume

def writeReport (path content : String) : IO (Option RunFault) := do
  let directory := reportDirectory path
  let made ← if directory = "" then pure true
    else Except.isOk <$> (IO.FS.createDirAll directory).toBaseIO
  if !made then return some (.noDirectory directory)
  match ← (IO.FS.writeBinFile path content.toUTF8).toBaseIO with
  | .ok _ => return none
  | .error _ => return some (.unwritableReport path)

def carryOut (invocation : Invocation) (environment : Environment) : IO RunEnding := do
  match invocation.report environment (← load invocation environment) with
  | .error fault => return .failed fault
  | .ok content =>
      match invocation.output with
      | none =>
          IO.print (endLine content)
          return .done
      | some path => return (← writeReport path content).elim .done .failed

def environment : IO Environment :=
  return {
    config := ← IO.getEnv "CLASS_DEPS_CONFIG"
    configHome := ← IO.getEnv "XDG_CONFIG_HOME"
    home := ← IO.getEnv "HOME" }

def finish (ending : RunEnding) : IO UInt32 := do
  match ending with
  | .done => pure ()
  | .refused .helpWanted => IO.println usage
  | .refused fault => IO.eprintln ("error: " ++ fault.message ++ "\n\n" ++ usage)
  | .failed fault => IO.eprintln ("Error: " ++ fault.message)
  return ending.exitCode

end ClassCoupling.Main

open ClassCoupling in
def main (arguments : List String) : IO UInt32 := do
  match Invocation.parse arguments with
  | .error fault => Main.finish (.refused fault)
  | .ok invocation => Main.finish (← Main.carryOut invocation (← Main.environment))
