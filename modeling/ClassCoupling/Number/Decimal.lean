import ClassCoupling.Number.Binary

/-!
Decimal texts of binary numbers: the fewest digits that read back to the same
number, and the nearest text with a fixed count of places.
-/
namespace ClassCoupling.Number

structure Decimal where
  digits : Nat
  exponent : Int
deriving DecidableEq, Repr

/-- The numbers that round to one binary number, as dividends over one divisor. The ends belong
to it when `closed` says so. -/
structure Interval where
  low : Nat
  value : Nat
  high : Nat
  divisor : Nat
  closed : Bool

namespace Interval

def ofBinary (number : Binary) : Interval :=
  let (value, divisor) := number.ratio
  let step := (power 2 number.exponent).1
  -- Below a power of two the neighbours are half as far apart.
  let below := if number.significand = Nat.pow 2 (Binary.precision - 1) then step else 2 * step
  { low := 4 * value - below
    value := 4 * value
    high := 4 * value + 2 * step
    divisor := 4 * divisor
    closed := number.significand % 2 = 0 }

def contains (interval : Interval) (decimal : Decimal) : Bool :=
  let (up, down) := power 10 decimal.exponent
  let point := decimal.digits * up * interval.divisor
  if interval.closed then
    interval.low * down ≤ point && point ≤ interval.high * down
  else
    interval.low * down < point && point < interval.high * down

end Interval

namespace Decimal

def leading (dividend divisor : Nat) : Int :=
  if divisor ≤ dividend then (Nat.toDigits 10 (dividend / divisor)).length - 1
  else -((Nat.toDigits 10 ((divisor - 1) / dividend)).length : Int)

def nearest (interval : Interval) (exponent : Int) : Decimal :=
  let (up, down) := power 10 exponent
  ⟨roundHalfEven (interval.value * down) (interval.divisor * up), exponent⟩

def candidates (interval : Interval) (exponent : Int) : List Decimal :=
  let best := nearest interval exponent
  let (up, down) := power 10 exponent
  let floor := interval.value * down / (interval.divisor * up)
  let other := if best.digits = floor then floor + 1 else floor
  [best, ⟨other, exponent⟩]

def search (interval : Interval) (exponent : Int) : Nat → Decimal
  | 0 => nearest interval exponent
  | count + 1 =>
      match (candidates interval exponent).find? interval.contains with
      | some decimal => decimal
      | none => search interval (exponent - 1) count

/-- The fewest digits that read back to the number, and of those the nearest. The first
grid has its points above the number, and seventeen digits always do. -/
def shortest (number : Binary) : Decimal :=
  if number.significand = 0 then ⟨0, 0⟩
  else
    let interval := Interval.ofBinary number
    search interval (leading interval.value interval.divisor + 1) 17

def zeros (count : Nat) : List Char := List.replicate count '0'

def pointed (digits : List Char) (whole : Nat) : List Char :=
  digits.take whole ++ '.' :: digits.drop whole

/-- The exponents written without an exponent: the first digit stands at most this far
before the point, or less than that far behind it. -/
structure Layout where
  largest : Int
  smallest : Int

def text (layout : Layout) (decimal : Decimal) : String :=
  let digits := Nat.toDigits 10 decimal.digits
  let whole : Int := digits.length + decimal.exponent
  String.ofList <|
    if decimal.digits = 0 then ['0', '.', '0']
    else if 0 ≤ decimal.exponent && whole ≤ layout.largest then
      digits ++ zeros decimal.exponent.toNat ++ ['.', '0']
    else if 0 < whole && whole ≤ layout.largest then pointed digits whole.toNat
    else if layout.smallest < whole && whole ≤ 0 then
      '0' :: '.' :: zeros (-whole).toNat ++ digits
    else
      let mantissa := if digits.length = 1 then digits else pointed digits 1
      mantissa ++ 'e' :: (toString (whole - 1)).toList

def fixed (places : Nat) (number : Binary) : String :=
  let (dividend, divisor) := number.ratio
  let digits := Nat.toDigits 10 (roundHalfEven (dividend * Nat.pow 10 places) divisor)
  let padded := zeros (places + 1 - digits.length) ++ digits
  String.ofList (pointed padded (padded.length - places))

end Decimal

end ClassCoupling.Number
