import ClassCoupling.Text.Utf8
import ClassCoupling.Text.Utf16

/-!
The text of class-file constants. Bytes that are standard UTF-8 are taken as
such. Other bytes are read unit by unit: one, two or three bytes give one
UTF-16 unit, so that NUL can be two bytes and a supplementary character two
surrogates of three bytes each. A byte that starts no unit gives U+FFFD.
-/
namespace ClassCoupling.ModifiedUtf8

def twoByteUnit (lead second : UInt8) : UInt16 :=
  UInt16.ofNat ((lead &&& 0x1F).toNat * 64 + Utf8.payload second)

def threeByteUnit (lead second third : UInt8) : UInt16 :=
  UInt16.ofNat (((lead &&& 0x0F).toNat * 64 + Utf8.payload second) * 64 + Utf8.payload third)

def replacementUnit : UInt16 := 0xFFFD

def unitsAfter (found : List UInt16) : List UInt8 → List UInt16
  | [] => found.reverse
  | lead :: rest =>
      if lead &&& 0x80 == 0 then unitsAfter (lead.toUInt16 :: found) rest
      else if lead &&& 0xE0 == 0xC0 then
        match rest with
        | second :: after => unitsAfter (twoByteUnit lead second :: found) after
        | [] => unitsAfter (replacementUnit :: found) []
      else if lead &&& 0xF0 == 0xE0 then
        match rest with
        | second :: third :: after => unitsAfter (threeByteUnit lead second third :: found) after
        | [second] => unitsAfter (replacementUnit :: found) [second]
        | [] => unitsAfter (replacementUnit :: found) []
      else unitsAfter (replacementUnit :: found) rest

def units (bytes : List UInt8) : List UInt16 := unitsAfter [] bytes

def decode (bytes : List UInt8) : String :=
  match Utf8.decode? bytes with
  | some text => text
  | none => String.ofList (Utf16.decode (units bytes))

/-- The bytes of one unit; NUL takes two, so that no encoded text holds a zero byte. -/
def encodeUnit (unit : UInt16) : List UInt8 :=
  let value := unit.toNat
  if 0 < value && value < 0x80 then [UInt8.ofNat value]
  else if value < 0x800 then
    [UInt8.ofNat (0xC0 + value / 64), UInt8.ofNat (0x80 + value % 64)]
  else
    [UInt8.ofNat (0xE0 + value / 4096), UInt8.ofNat (0x80 + value / 64 % 64),
      UInt8.ofNat (0x80 + value % 64)]

def encode (units : List UInt16) : List UInt8 := units.flatMap encodeUnit

end ClassCoupling.ModifiedUtf8
