import Std.Data.TreeMap
import ClassCoupling.Path

/-!
A tree of files. Each file, directory and symbolic link has a place, which is the list
of names from the root down to it. A path is followed piece by piece, from
the root or from the current directory, through the links on the way.
-/
namespace ClassCoupling

abbrev Place := List String

inductive Item where
  | file (bytes : List UInt8)
  | directory
  | link (target : String)

inductive AccessFault where
  | missing
  | alreadyThere
  | noDevice
  | notADirectory
  | isADirectory
  | nameTooLong
  | tooManyLinks
  | badCharacter
deriving DecidableEq, Repr

def AccessFault.message : AccessFault → String
  | missing => "No such file or directory (os error 2)"
  | alreadyThere => "File exists (os error 17)"
  | noDevice => "No such device (os error 19)"
  | notADirectory => "Not a directory (os error 20)"
  | isADirectory => "Is a directory (os error 21)"
  | nameTooLong => "File name too long (os error 36)"
  | tooManyLinks => "Too many levels of symbolic links (os error 40)"
  | badCharacter => "file name contained an unexpected NUL byte"

structure Volume where
  items : Std.TreeMap Place Item := ∅
  current : Place := []

namespace Volume

def item? (volume : Volume) (place : Place) : Option Item :=
  if place = [] then some .directory else volume.items[place]?

/-- The names a path steps through. A slash at the end asks for a directory, as a dot does. -/
def steps (path : String) : List String :=
  let pieces := path.toList.splitOn '/'
  let names := (pieces.filter (· ≠ [])).map String.ofList
  if pieces.getLast? = some [] then names ++ ["."] else names

structure Ending where
  follow : Bool := true
  /-- Nothing need be there yet. -/
  create : Bool := false

def maxLinks : Nat := 40

def walk (volume : Volume) (ending : Ending) (links : Nat) (place : Place) :
    List String → Except AccessFault Place
  | [] => .ok place
  | step :: rest =>
      match volume.item? place with
      | some .directory =>
          if step = "." then walk volume ending links place rest
          else if step = ".." then walk volume ending links place.dropLast rest
          else if 255 < step.utf8ByteSize then .error .nameTooLong
          else
            match volume.item? (place ++ [step]) with
            | none =>
                if ending.create && rest.isEmpty then .ok (place ++ [step]) else .error .missing
            | some (.link target) =>
                if rest.isEmpty && !ending.follow then .ok (place ++ [step])
                else
                  match links with
                  | 0 => .error .tooManyLinks
                  | links + 1 =>
                      walk volume ending links (if Path.isRooted target then [] else place)
                        (steps target ++ rest)
            | some _ => walk volume ending links (place ++ [step]) rest
      | some _ => .error .notADirectory
      | none => .error .missing
termination_by rest => (links, rest.length)

def resolve (volume : Volume) (ending : Ending) (path : String) : Except AccessFault Place :=
  if path.toList.contains '\x00' then .error .badCharacter
  else if path = "" then .error .missing
  else if 4096 ≤ path.utf8ByteSize then .error .nameTooLong
  else
    walk volume ending maxLinks (if Path.isRooted path then [] else volume.current) (steps path)

def find (volume : Volume) (path : String) : Except AccessFault (Place × Item) := do
  let place ← volume.resolve {} path
  match volume.item? place with
  | some item => return (place, item)
  | none => throw .missing

def isThere (volume : Volume) (path : String) : Bool := (volume.find path).isOk

def isDirectory (volume : Volume) (path : String) : Bool :=
  match volume.find path with
  | .ok (_, .directory) => true
  | _ => false

def read (volume : Volume) (onDirectory : AccessFault) (path : String) :
    Except AccessFault (List UInt8) := do
  match ← volume.find path with
  | (_, .file bytes) => return bytes
  | (_, .directory) => throw onDirectory
  | (_, .link _) => throw .tooManyLinks

def put (volume : Volume) (place : Place) (item : Item) : Volume :=
  { volume with items := volume.items.insert place item }

def makeDirectory (volume : Volume) (path : String) : Except AccessFault Volume := do
  let place ← volume.resolve { follow := false, create := true } path
  match volume.item? place with
  | some _ => throw .alreadyThere
  | none => return volume.put place .directory

def orDirectory (volume : Volume) (path : String) (result : Except AccessFault Volume) :
    Except AccessFault Volume :=
  match result with
  | .ok volume => .ok volume
  | .error fault => if volume.isDirectory path then .ok volume else .error fault

/-- Makes a directory and those above it that are missing. Each path has at most as many
above it as it has characters. What was made before a fault stays. -/
def makeDirectoriesAfter : Nat → Volume → String → Volume × Option AccessFault
  | 0, volume, _ => (volume, some .missing)
  | steps + 1, volume, path =>
      let settle (volume : Volume) (result : Except AccessFault Volume) :=
        match volume.orDirectory path result with
        | .ok volume => (volume, none)
        | .error fault => (volume, some fault)
      if path = "" then (volume, none)
      else
        match volume.makeDirectory path with
        | .error .missing =>
            match Path.parent? path with
            | none => (volume, some .missing)
            | some parent =>
                match makeDirectoriesAfter steps volume parent with
                | (volume, none) => settle volume (volume.makeDirectory path)
                | (volume, some fault) => (volume, some fault)
        | result => settle volume result

def makeDirectories (volume : Volume) (path : String) : Volume × Option AccessFault :=
  makeDirectoriesAfter (path.length + 1) volume path

def write (volume : Volume) (path : String) (bytes : List UInt8) :
    Except AccessFault Volume := do
  let place ← volume.resolve { create := true } path
  match volume.item? place with
  | some .directory => throw .isADirectory
  | _ => return volume.put place (.file bytes)

def makeLink (volume : Volume) (path target : String) : Except AccessFault Volume := do
  let place ← volume.resolve { follow := false, create := true } path
  match volume.item? place with
  | some _ => throw .alreadyThere
  | none => return volume.put place (.link target)

end Volume

end ClassCoupling
