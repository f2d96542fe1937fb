import ClassCoupling.Number.Binary

/-!
The numerals of JSON, and which of them stay finite as numbers of 53 bits. Of the
digits only as many are taken as fit a 64-bit word; those that are left out count
by their places alone.
-/
namespace ClassCoupling.Json

open Number

structure Numeral where
  whole : List Char
  fraction : List Char := []
  exponent : Int := 0

namespace Numeral

def digits (text : List Char) : List Char × List Char :=
  (text.takeWhile Char.isDigit, text.dropWhile Char.isDigit)

def value (digits : List Char) : Nat :=
  digits.foldl (fun value char => value * 10 + (char.toNat - '0'.toNat)) 0

def readWhole (text : List Char) : Option (List Char × List Char) :=
  match digits text with
  | ([], _) => none
  | ('0' :: _ :: _, _) => none
  | result => some result

def readFraction : List Char → Option (List Char × List Char)
  | '.' :: text =>
      match digits text with
      | ([], _) => none
      | result => some result
  | text => some ([], text)

def readSign : List Char → Bool × List Char
  | '+' :: text => (false, text)
  | '-' :: text => (true, text)
  | text => (false, text)

def readExponent : List Char → Option (Int × List Char)
  | [] => some (0, [])
  | mark :: text =>
      if mark = 'e' || mark = 'E' then
        let (negative, text) := readSign text
        match digits text with
        | ([], _) => none
        | (found, rest) =>
            let size : Int := value found
            some (if negative then -size else size, rest)
      else some (0, mark :: text)

def read? (text : List Char) : Option (Numeral × List Char) := do
  let text := match text with
    | '-' :: text => text
    | text => text
  let (whole, text) ← readWhole text
  let (fraction, text) ← readFraction text
  let (exponent, text) ← readExponent text
  return ({ whole, fraction, exponent }, text)

structure Taken where
  significand : Nat := 0
  exponent : Int := 0
  full : Bool := false

/-- Takes one more digit unless the word is full; `kept` and `dropped` say what each case
does to the exponent. -/
def Taken.next (kept dropped : Int) (taken : Taken) (digit : Char) : Taken :=
  let significand := taken.significand * 10 + (digit.toNat - '0'.toNat)
  if taken.full || Nat.pow 2 64 ≤ significand then
    { taken with exponent := taken.exponent + dropped, full := true }
  else { taken with significand, exponent := taken.exponent + kept }

def taken (numeral : Numeral) : Taken :=
  let whole := numeral.whole.foldl (Taken.next 0 1) {}
  numeral.fraction.foldl (Taken.next (-1) 0) { whole with full := false }

def limit : Nat := Nat.pow 2 1024 - Nat.pow 2 970

/-- Whether the number stays finite: its digits and its power of ten are each rounded,
and then their product. -/
def isFinite (numeral : Numeral) : Bool :=
  let taken := numeral.taken
  let exponent := taken.exponent + numeral.exponent
  if taken.significand = 0 || exponent < 0 then true
  else if 308 < exponent then false
  else
    let (above, below) := (Binary.ofNat taken.significand).ratio
    let (up, down) := (Binary.ofNat (Nat.pow 10 exponent.toNat)).ratio
    above * up < limit * (below * down)

end Numeral

end ClassCoupling.Json
