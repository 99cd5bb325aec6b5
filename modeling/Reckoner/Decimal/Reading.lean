import Reckoner.Decimal.Basic

/-!
# Reading decimals

A decimal numeral is a run of digits with at most one point before, inside or after
it, and after it perhaps an `e` and an exponent.  A number may have a sign, and its
name may be `inf`, `infinity` or `nan` in any case instead of a numeral.
-/

namespace Reckoner

/-- A leading sign, and the rest. -/
def readSign : List Char → Bool × List Char
  | '-' :: rest => (true, rest)
  | '+' :: rest => (false, rest)
  | rest => (false, rest)

namespace Decimal

/-- The exponent that ends a numeral; none is zero. -/
def readExponent? : List Char → Option Int
  | [] => some 0
  | mark :: rest =>
    let (negative, digits) := readSign rest
    if (mark = 'e' ∨ mark = 'E') ∧ digits ≠ [] ∧ digits.all Char.isDigit then
      let size := Nat.ofDigitChars 10 digits 0
      some (if negative then -size else size)
    else none

/-- The digits after a leading point, and the rest. -/
def readFraction : List Char → List Char × List Char
  | '.' :: rest => (rest.takeWhile Char.isDigit, rest.dropWhile Char.isDigit)
  | rest => ([], rest)

def read? (text : List Char) : Option Decimal :=
  let whole := text.takeWhile Char.isDigit
  let (fraction, rest) := readFraction (text.dropWhile Char.isDigit)
  if whole = [] ∧ fraction = [] then none
  else (readExponent? rest).map fun e ↦
    ⟨Nat.ofDigitChars 10 (whole ++ fraction) 0, e - fraction.length⟩

end Decimal

/-- The number written as `text`. -/
def Binary64.read? (text : List Char) : Option Binary64 :=
  let (negative, rest) := readSign text
  let name := rest.map Char.toLower
  if name = "inf".toList ∨ name = "infinity".toList then some (infinity negative)
  else if name = "nan".toList then some nan
  else (Decimal.read? rest).map (ofDecimal negative)

end Reckoner
