/-!
The bytes of an archive with its fields, which have their lowest byte first, and
what can be wrong with an archive or with one of its members.
-/
namespace ClassCoupling.Archive

inductive Problem where
  | tooShort
  | noEnd
  | severalDisks
  | misplacedDirectory
  | noRoomForWideEnd
  | noWideEnd
  | badDirectoryHeader
  | badMemberHeader
  | headerTooFar
  | cutShort
  | cipherLength
  | cipherVendor
  | cipherVersion
  | cipherStrength
  | cipherMissing
  | encrypted
  /-- A member is marked as enciphered but not as encrypted. -/
  | unmarkedCipher
  | unknownMethod
  | corruptData
  | unfinishedData
  | wrongChecksum
deriving DecidableEq, Repr

namespace Problem

def invalid (text : String) : String := "invalid Zip archive: " ++ text

def unsupported (text : String) : String := "unsupported Zip archive: " ++ text

def message : Problem → String
  | tooShort => invalid "Invalid zip header"
  | noEnd => invalid "Could not find central directory end"
  | severalDisks => unsupported "Support for multi-disk files is not implemented"
  | misplacedDirectory => invalid "Invalid central directory size or offset"
  | noRoomForWideEnd => invalid "File cannot contain ZIP64 central directory end"
  | noWideEnd => invalid "Could not find ZIP64 central directory end"
  | badDirectoryHeader => invalid "Invalid Central Directory header"
  | badMemberHeader => invalid "Invalid local file header"
  | headerTooFar => invalid "Archive header is too large"
  | cutShort => "failed to fill whole buffer"
  | cipherLength => unsupported "AES extra data field has an unsupported length"
  | cipherVendor => invalid "Invalid AES vendor"
  | cipherVersion => invalid "Invalid AES vendor version"
  | cipherStrength => invalid "Invalid AES encryption strength"
  | cipherMissing => invalid "AES encryption without AES extra data field"
  | encrypted => unsupported "Password required to decrypt file"
  | unmarkedCipher => "called `Result::unwrap()` on an `Err` value: InvalidPassword"
  | unknownMethod => unsupported "Compression method not supported"
  | corruptData => "corrupt deflate stream"
  | unfinishedData => "incomplete deflate stream"
  | wrongChecksum => "Invalid checksum"

end Problem

abbrev Image := Array UInt8

def littleEndian (bytes : List UInt8) : Nat :=
  bytes.foldr (fun byte value => byte.toNat + 256 * value) 0

namespace Image

def slice (image : Image) (start length : Nat) : Except Problem (List UInt8) :=
  if start + length ≤ image.size then .ok (image.extract start (start + length)).toList
  else .error .cutShort

def field (image : Image) (start width : Nat) : Except Problem Nat :=
  littleEndian <$> image.slice start width

def hasMark (image : Image) (mark start : Nat) : Bool :=
  match image.field start 4 with
  | .ok value => value == mark
  | .error _ => false

end Image

end ClassCoupling.Archive
