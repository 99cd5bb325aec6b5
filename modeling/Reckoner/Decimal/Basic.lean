import Reckoner.Binary64.Rounding

/-!
# Decimal numbers

A decimal number is a coefficient times a power of ten.  Its exact value is a
quotient of whole numbers, which is what rounding to binary64 starts from.
-/

namespace Reckoner

/-- The number `coefficient * 10 ^ exponent`. -/
structure Decimal where
  coefficient : Nat
  exponent : Int
deriving DecidableEq

namespace Decimal

def digitCount (n : Nat) : Nat :=
  (Nat.toDigits 10 n).length

def numerator (d : Decimal) : Nat :=
  d.coefficient * tenTo d.exponent.toNat

def denominator (d : Decimal) : Nat :=
  tenTo (-d.exponent).toNat

theorem denominator_pos (d : Decimal) : 0 < d.denominator :=
  tenTo_pos _

/-- The least power of ten above the value of a coefficient that is not zero. -/
def ceiling (d : Decimal) : Int :=
  d.exponent + digitCount d.coefficient

/-- The magnitude nearest to `d`, unless that overflows. -/
def magnitude? (d : Decimal) : Option Binary64.Magnitude :=
  Binary64.Magnitude.ofUnits? (d.numerator * Binary64.unitsPerOne) d.denominator

end Decimal

/-- `d` with a sign, rounded to binary64.  Powers of ten far outside the range are not
computed: above `10 ^ 310` everything overflows, and below `10 ^ -330` everything
rounds to zero. -/
def Binary64.ofDecimal (negative : Bool) (d : Decimal) : Binary64 :=
  if d.coefficient = 0 ∨ d.ceiling < -330 then finite negative .zero
  else if 310 < d.ceiling then infinity negative
  else round negative (d.numerator * unitsPerOne) d.denominator

end Reckoner
