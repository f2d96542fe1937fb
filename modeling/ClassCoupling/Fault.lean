/-!
Why an input can fail to give a class, and the wording of each cause.
A failure pairs a cause with the label of the input it belongs to.
-/
namespace ClassCoupling

inductive Fault where
  | notAClassFile (magic : UInt32)
  /-- A tag outside the format, or a two-slot constant in the last slot. -/
  | malformedPool (index : UInt16) (tag : UInt8)
  | invalidIndex (index : UInt16)
  | wrongConstant (index : UInt16) (expected : String)
  | annotationTooDeep (offset limit : Nat)
  | unsupportedEntry (name : String)
  | truncated (offset needed : Nat)
  | aborted (message : String)
  | unreadable (cause : String)
deriving DecidableEq, Repr

namespace Fault

def hexDigits (width value : Nat) : String :=
  let digits := Nat.toDigits 16 value
  String.ofList (List.replicate (width - digits.length) '0' ++ digits)

def message : Fault → String
  | notAClassFile magic =>
      "not a class file: magic is 0x" ++ hexDigits 8 magic.toNat ++ ", expected 0xcafebabe"
  | malformedPool index tag =>
      "malformed constant pool: unknown tag " ++ toString tag.toNat ++
        " at index " ++ toString index.toNat
  | invalidIndex index => "invalid constant pool index: " ++ toString index.toNat
  | wrongConstant index expected =>
      "constant pool entry " ++ toString index.toNat ++ " is not a " ++ expected ++ " constant"
  | annotationTooDeep offset limit =>
      "annotation values nested deeper than " ++ toString limit ++
        " at offset " ++ toString offset
  | unsupportedEntry name => "unsupported archive entry: " ++ name
  | truncated offset needed =>
      "truncated input: needed " ++ toString needed ++ " byte(s) at offset " ++ toString offset
  | aborted text => "decoding panicked: " ++ text
  | unreadable cause => "unreadable input: " ++ cause

/-- An archive member that holds no class is passed over; everything else ends its input. -/
def isFatal : Fault → Bool
  | unsupportedEntry _ => false
  | _ => true

end Fault

structure Failure where
  origin : String
  fault : Fault
deriving DecidableEq, Repr

def Failure.describe (failure : Failure) : String :=
  failure.origin ++ ": " ++ failure.fault.message

end ClassCoupling
