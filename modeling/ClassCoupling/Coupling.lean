import ClassCoupling.Number.Decimal

/-!
How unstable a class or a group is: the share of its efferent coupling in all of
its coupling, from zero when everything points at it to one when it points at
everything. Couplings are 64-bit words and their sum is taken in words.
-/
namespace ClassCoupling

open Number

/-- The share of the efferent coupling, and zero without any coupling. -/
def instability (afferent efferent : UInt64) : Binary :=
  let total := afferent + efferent
  if total = 0 then .zero
  else (Binary.ofNat efferent.toNat).div (Binary.ofNat total.toNat)

def instabilityOf (afferent efferent : Nat) : Binary :=
  instability (UInt64.ofNat afferent) (UInt64.ofNat efferent)

end ClassCoupling
