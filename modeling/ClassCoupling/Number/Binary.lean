import ClassCoupling.Number.Rounding

/-!
Nonnegative numbers with a significand of 53 bits. A quotient of two of them is
the nearest such number, and a half goes to the even significand.
-/
namespace ClassCoupling.Number

/-- The number `significand * 2 ^ exponent`. -/
structure Binary where
  significand : Nat
  exponent : Int
deriving DecidableEq, Repr

namespace Binary

def precision : Nat := 53

def zero : Binary := ⟨0, 0⟩

def ratio (number : Binary) : Nat × Nat :=
  let (up, down) := power 2 number.exponent
  (number.significand * up, down)

def normalize (number : Binary) : Binary :=
  if number.significand = Nat.pow 2 precision then ⟨Nat.pow 2 (precision - 1), number.exponent + 1⟩
  else number

def ofRatio (dividend divisor : Nat) : Binary :=
  if dividend = 0 then zero
  else
    let guess : Int := dividend.log2 - divisor.log2 - precision
    let (up, down) := power 2 (-guess)
    let exponent := if dividend * up < Nat.pow 2 precision * (divisor * down) then guess else guess + 1
    let (up, down) := power 2 (-exponent)
    normalize ⟨roundHalfEven (dividend * up) (divisor * down), exponent⟩

def ofNat (value : Nat) : Binary := ofRatio value 1

def div (dividend divisor : Binary) : Binary :=
  let (above, below) := dividend.ratio
  let (above', below') := divisor.ratio
  ofRatio (above * below') (below * above')

end Binary

end ClassCoupling.Number
