import Reckoner.Decimal.Basic

/-!
# Writing decimals

A decimal is written positionally where its first significant digit stands near the
point, and otherwise with a power of ten.  Where the positional range ends, and
whether a whole number keeps a fractional part, is the choice of a layout.
-/

namespace Reckoner
namespace Decimal

/-- The choices in writing a decimal positionally. -/
structure Layout where
  /-- The least exponent of the first digit that is written positionally. -/
  plainFrom : Int
  /-- The least exponent above those written positionally. -/
  plainBelow : Int
  /-- What follows a whole number. -/
  wholeEnding : List Char

/-- The significant digits, without the zeros at their end. -/
def significantDigits (d : Decimal) : List Char :=
  ((Nat.toDigits 10 d.coefficient).reverse.dropWhile (· == '0')).reverse

/-- The exponent of the first digit of the coefficient. -/
def firstExponent (d : Decimal) : Int :=
  d.ceiling - 1

/-- Exponents have a sign and at least two digits. -/
def exponentText (e : Int) : List Char :=
  let digits := Nat.toDigits 10 e.natAbs
  'e' :: (if e < 0 then '-' else '+') :: (if digits.length < 2 then '0' :: digits else digits)

def plainText (l : Layout) (digits : List Char) (e : Int) : List Char :=
  if e < 0 then '0' :: '.' :: (List.replicate (-e - 1).toNat '0' ++ digits)
  else
    let wholeCount := e.toNat + 1
    if digits.length ≤ wholeCount then
      digits ++ List.replicate (wholeCount - digits.length) '0' ++ l.wholeEnding
    else digits.take wholeCount ++ '.' :: digits.drop wholeCount

def scientificText (digits : List Char) (e : Int) : List Char :=
  match digits with
  | first :: second :: rest => first :: '.' :: second :: rest ++ exponentText e
  | _ => digits ++ exponentText e

def Layout.text (l : Layout) (d : Decimal) : List Char :=
  let e := d.firstExponent
  if l.plainFrom ≤ e ∧ e < l.plainBelow then plainText l d.significantDigits e
  else scientificText d.significantDigits e

end Decimal
end Reckoner
