/-!
Division with the quotient rounded to the nearest integer. An exact half goes to
the even neighbour.
-/
namespace ClassCoupling.Number

def roundHalfEven (dividend divisor : Nat) : Nat :=
  let quotient := dividend / divisor
  let twice := 2 * (dividend % divisor)
  if twice < divisor then quotient
  else if divisor < twice then quotient + 1
  else quotient + quotient % 2

/-- A base to an integer power, as a dividend and a divisor. -/
def power (base : Nat) (exponent : Int) : Nat × Nat :=
  (Nat.pow base exponent.toNat, Nat.pow base (-exponent).toNat)

end ClassCoupling.Number
