import ClassCoupling.Fault
import ClassCoupling.NameFilter
import ClassCoupling.Archive.Crc32
import ClassCoupling.Archive.Directory
import ClassCoupling.Archive.Inflate

/-!
The class files of an archive. Members are opened in the order of the directory, and
each is opened before its name is looked at. Only those with the name of a class file that
the filter lets pass are read. The first member that cannot be opened or read
fails the archive as a whole.
-/
namespace ClassCoupling.Archive

/-- A member: what keeps it from being opened, if anything, and its bytes. -/
structure Member where
  name : String
  problem : Option Problem
  content : Unit → Except Problem (List UInt8)

def memberMark : Nat := 0x04034b50

namespace Member

/-- Where the data of a member begins: behind its own header, whose name and extra
fields have lengths of their own. -/
def dataStart (image : Image) (header : Header) : Except Problem Nat := do
  if (← image.field header.start 4) ≠ memberMark then throw .badMemberHeader
  let nameLength ← image.field (header.start + 26) 2
  let extraLength ← image.field (header.start + 28) 2
  return header.start + 30 + nameLength + extraLength

def storedMethod : Nat := 0
def deflatedMethod : Nat := 8

def locate (image : Image) (header : Header) : Except Problem Nat := do
  if header.isEncrypted then throw .encrypted
  let start ← dataStart image header
  if header.method ≠ storedMethod && header.method ≠ deflatedMethod then throw .unknownMethod
  if header.hasCipher then throw .unmarkedCipher
  return start

/-- The bytes of a member whose data begins at `start`, checked against its checksum. Data
that reaches beyond the end of the file stops there. -/
def unpack (image : Image) (header : Header) (start : Nat) : Except Problem (List UInt8) := do
  let data := image.extract start (start + header.compressedSize)
  let content ←
    if header.method = storedMethod then pure data.toList
    else Array.toList <$> Inflate.inflate data
  if Crc32.checksum content = header.checksum then return content else throw .wrongChecksum

def ofHeader (image : Image) (header : Header) : Member :=
  match locate image header with
  | .ok start =>
      { name := header.name, problem := none, content := fun _ => unpack image header start }
  | .error problem =>
      { name := header.name, problem := some problem, content := fun _ => .error problem }

def isDirectory (member : Member) : Bool :=
  match member.name.toList.getLast? with
  | some last => last = '/' || last = '\\'
  | none => false

def isClassName (name : String) : Bool :=
  ".class".toList.isSuffixOf (name.toList.map Char.toLower)

end Member

inductive Outcome where
  /-- It is a directory, or a nested class that the filter leaves out. -/
  | ignored
  | skipped (name : String)
  | entry (name : String) (bytes : List UInt8)

def Member.outcome (filter : NameFilter) (member : Member) : Except Problem Outcome := do
  match member.problem with
  | some problem => throw problem
  | none =>
      if member.isDirectory then return .ignored
      else if !isClassName member.name then return .skipped member.name
      else if !filter.acceptsInner member.name then return .ignored
      else return .entry member.name (← member.content ())

structure Entry where
  name : String
  bytes : List UInt8
deriving DecidableEq, Repr

structure Contents where
  entries : List Entry
  skipped : List Fault
deriving DecidableEq, Repr

def Contents.ofOutcomes (outcomes : List Outcome) : Contents where
  entries := outcomes.filterMap fun
    | .entry name bytes => some ⟨name, bytes⟩
    | _ => none
  skipped := outcomes.filterMap fun
    | .skipped name => some (.unsupportedEntry name)
    | _ => none

def Contents.ofMembers (filter : NameFilter) (members : List Member) :
    Except Problem Contents := do
  return .ofOutcomes (← members.mapM (Member.outcome filter))

/-- A member that is enciphered but not marked as encrypted stops the decoding; any other
problem makes the archive unreadable. -/
def Problem.fault (problem : Problem) : Fault :=
  match problem with
  | .unmarkedCipher => .aborted problem.message
  | _ => .unreadable problem.message

def Contents.read (filter : NameFilter) (bytes : List UInt8) : Except Fault Contents :=
  let image : Image := bytes.toArray
  let contents := do
    let headers ← Header.readAll image
    Contents.ofMembers filter (headers.map (Member.ofHeader image))
  match contents with
  | .ok contents => .ok contents
  | .error problem => .error problem.fault

end ClassCoupling.Archive
