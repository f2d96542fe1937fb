import ClassCoupling.Archive.CodePage
import ClassCoupling.Archive.Image

/-!
The directory of an archive. A record at the end says where the directory is and how
many members it lists; it is looked for from the end backwards, since a comment may
follow it. The wide form of the record, for large archives, stands in front of it and is
looked for forwards. Other bytes may stand in front of the archive, and then every
offset in it counts from where the archive begins.
-/
namespace ClassCoupling.Archive

def endMark : Nat := 0x06054b50
def wideLocatorMark : Nat := 0x07064b50
def wideEndMark : Nat := 0x06064b50
def directoryMark : Nat := 0x02014b50

def offsetLimit : Nat := Nat.pow 2 64

/-- A field of two or four bytes that holds this says that its value is elsewhere. -/
def elsewhere (width : Nat) : Nat := Nat.pow 256 width - 1

structure EndRecord where
  position : Nat
  disk : Nat
  directoryDisk : Nat
  countHere : Nat
  count : Nat
  directorySize : Nat
  directoryOffset : Nat
  commentLength : Nat

namespace EndRecord

def length : Nat := 22

def isTooSmall (record : EndRecord) : Bool :=
  [record.disk, record.directoryDisk, record.countHere, record.count].contains (elsewhere 2) ||
    [record.directorySize, record.directoryOffset].contains (elsewhere 4)

def position? (image : Image) : Option Nat :=
  let last := image.size - length
  let back? := (List.range (min last (elsewhere 2) + 1)).find? fun back =>
    image.hasMark endMark (last - back)
  back?.map (last - ·)

def read (image : Image) (position : Nat) : Except Problem EndRecord := do
  let commentLength ← image.field (position + 20) 2
  let _ ← image.slice (position + length) commentLength
  return {
    position
    disk := ← image.field (position + 4) 2
    directoryDisk := ← image.field (position + 6) 2
    countHere := ← image.field (position + 8) 2
    count := ← image.field (position + 10) 2
    directorySize := ← image.field (position + 12) 4
    directoryOffset := ← image.field (position + 16) 4
    commentLength }

def find (image : Image) : Except Problem EndRecord := do
  if image.size < length then throw .tooShort
  match position? image with
  | none => throw .noEnd
  | some position =>
      let record ← read image position
      if !record.isTooSmall && record.disk ≠ record.directoryDisk then throw .severalDisks
      return record

end EndRecord

structure Layout where
  base : Nat
  directory : Nat
  count : Nat

namespace Layout

def ofRecord (record : EndRecord) : Except Problem Layout :=
  let used := record.directorySize + record.directoryOffset
  if used ≤ record.position then
    let base := record.position - used
    .ok { base, directory := base + record.directoryOffset, count := record.countHere }
  else .error .misplacedDirectory

def locator? (image : Image) (record : EndRecord) : Option Nat :=
  let back := 20 + EndRecord.length + record.commentLength
  if back ≤ image.size && image.hasMark wideLocatorMark (image.size - back) then
    some (image.size - back)
  else none

/-- The first wide record from `offset` on, and how far behind `offset` it is. -/
def wideShift? (image : Image) (offset bound : Nat) : Option Nat :=
  (List.range (bound + 1 - offset)).find? fun shift => image.hasMark wideEndMark (offset + shift)

def ofWideRecord (image : Image) (record : EndRecord) (locator : Nat) :
    Except Problem Layout := do
  let directoryDisk ← image.field (locator + 4) 4
  let offset ← image.field (locator + 8) 8
  if !record.isTooSmall && record.disk ≠ directoryDisk then throw .severalDisks
  if record.position < 60 then throw .noRoomForWideEnd
  match wideShift? image offset (record.position - 60) with
  | none => throw .noWideEnd
  | some base =>
      let position := offset + base
      if (← image.field (position + 16) 4) ≠ (← image.field (position + 20) 4) then
        throw .severalDisks
      let directory := (← image.field (position + 48) 8) + base
      if offsetLimit ≤ directory then throw .misplacedDirectory
      return { base, directory, count := ← image.field (position + 32) 8 }

def find (image : Image) : Except Problem Layout := do
  let record ← EndRecord.find image
  match locator? image record with
  | some locator => ofWideRecord image record locator
  | none => ofRecord record

end Layout

structure Header where
  name : String
  isEncrypted : Bool
  method : Nat
  checksum : UInt32
  compressedSize : Nat
  size : Nat
  start : Nat
  hasCipher : Bool := false

namespace Header

def cipherMethod : Nat := 99

/-- Takes an eight-byte value where a field says that its value is elsewhere: the value,
how many bytes it took, and the bytes behind it. -/
def widen (value : Nat) (bytes : List UInt8) : Option (Nat × Nat × List UInt8) :=
  if value = elsewhere 4 then
    if 8 ≤ bytes.length then some (littleEndian (bytes.take 8), 8, bytes.drop 8) else none
  else some (value, 0, bytes)

/-- The sizes and the offset that did not fit their fields. What was taken before the bytes
run out is kept; the number of bytes taken comes with the header if they do not. -/
def takeWide (header : Header) (bytes : List UInt8) : Header × Option (Nat × List UInt8) :=
  match widen header.size bytes with
  | none => (header, none)
  | some (size, first, bytes) =>
      let header := { header with size }
      match widen header.compressedSize bytes with
      | none => (header, none)
      | some (compressedSize, second, bytes) =>
          let header := { header with compressedSize }
          match widen header.start bytes with
          | none => (header, none)
          | some (start, third, bytes) => ({ header with start }, some (first + second + third, bytes))

def takeCipher (header : Header) (length : Nat) (bytes : List UInt8) :
    Except Problem (Header × Option (List UInt8)) := do
  if length ≠ 7 then throw .cipherLength
  if bytes.length < 7 then return (header, none)
  let version := littleEndian (bytes.take 2)
  let vendor := littleEndian ((bytes.drop 2).take 2)
  let strength := littleEndian ((bytes.drop 4).take 1)
  let method := littleEndian ((bytes.drop 5).take 2)
  if vendor ≠ 0x4541 then throw .cipherVendor
  if version ≠ 1 && version ≠ 2 then throw .cipherVersion
  if strength = 0 || 3 < strength then throw .cipherStrength
  return ({ header with method, hasCipher := true }, some (bytes.drop 7))

/-- Goes through the fields behind the name, each with its kind and length in front. Fields
of other kinds are passed over, and it ends where the bytes run out. -/
def takeExtra : Nat → Header → List UInt8 → Except Problem Header
  | 0, header, _ => return header
  | steps + 1, header, bytes => do
      if bytes.length < 4 then return header
      let kind := littleEndian (bytes.take 2)
      let length := littleEndian ((bytes.drop 2).take 2)
      let bytes := bytes.drop 4
      if kind = 1 then
        match header.takeWide bytes with
        | (header, none) => return header
        | (header, some (taken, bytes)) => takeExtra steps header (bytes.drop (length - taken))
      else if kind = 0x9901 then
        match ← header.takeCipher length bytes with
        | (header, none) => return header
        | (header, some bytes) => takeExtra steps header (bytes.drop length)
      else takeExtra steps header (bytes.drop length)

def read (image : Image) (base position : Nat) : Except Problem (Header × Nat) := do
  if (← image.field position 4) ≠ directoryMark then throw .badDirectoryHeader
  let flags ← image.field (position + 8) 2
  let nameLength ← image.field (position + 28) 2
  let extraLength ← image.field (position + 30) 2
  let commentLength ← image.field (position + 32) 2
  let nameStart := position + 46
  let extraStart := nameStart + nameLength
  let next := extraStart + extraLength + commentLength
  let _ ← image.slice position (next - position)
  let extra ← image.slice extraStart extraLength
  let header : Header := {
    name := decodeName (flags.testBit 11) (← image.slice nameStart nameLength)
    isEncrypted := flags.testBit 0
    method := ← image.field (position + 10) 2
    checksum := UInt32.ofNat (← image.field (position + 16) 4)
    compressedSize := ← image.field (position + 20) 4
    size := ← image.field (position + 24) 4
    start := ← image.field (position + 42) 4 }
  let header ← takeExtra extra.length header extra
  if header.method = cipherMethod && !header.hasCipher then throw .cipherMissing
  let start := header.start + base
  if offsetLimit ≤ start then throw .headerTooFar
  return ({ header with start }, next)

def readAfter (image : Image) (base : Nat) : Nat → Nat → List Header → Except Problem (List Header)
  | 0, _, found => return found.reverse
  | count + 1, position, found => do
      let (header, next) ← read image base position
      readAfter image base count next (header :: found)

def readAll (image : Image) : Except Problem (List Header) := do
  let layout ← Layout.find image
  readAfter image layout.base layout.count layout.directory []

end Header

end ClassCoupling.Archive
