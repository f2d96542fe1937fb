/-!
Text from UTF-16 code units. A high surrogate followed by a low one is one
character; a surrogate that stands alone becomes U+FFFD.
-/
namespace ClassCoupling.Utf16

def isHigh (unit : UInt16) : Bool := 0xD800 ≤ unit && unit < 0xDC00

def isLow (unit : UInt16) : Bool := 0xDC00 ≤ unit && unit < 0xE000

def single (unit : UInt16) : Char :=
  if isHigh unit || isLow unit then '\uFFFD' else Char.ofNat unit.toNat

def pair (high low : UInt16) : Char :=
  Char.ofNat (0x10000 + (high.toNat - 0xD800) * 0x400 + (low.toNat - 0xDC00))

def decodeAfter (found : List Char) : List UInt16 → List Char
  | [] => found.reverse
  | [unit] => (single unit :: found).reverse
  | unit :: next :: rest =>
      if isHigh unit && isLow next then decodeAfter (pair unit next :: found) rest
      else decodeAfter (single unit :: found) (next :: rest)

def decode (units : List UInt16) : List Char := decodeAfter [] units

end ClassCoupling.Utf16
