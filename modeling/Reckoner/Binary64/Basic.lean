import Reckoner.Powers

/-!
# Binary64 numbers

The numbers of IEEE 754 binary64: two zeros, the finite numbers of either sign,
two infinities, and one value that is not a number.  A finite magnitude is given by
its place in the increasing list of all of them, which is also its bit pattern
without the sign.  Its exact value is a whole number of units, a unit being
`2 ^ -1074`, the least magnitude above zero.
-/

namespace Reckoner

namespace Binary64

/-- How many significands share one exponent. -/
def binade : Nat := twoTo 52

/-- How many units make one. -/
def unitsPerOne : Nat := twoTo 1074

/-- How many finite magnitudes there are. -/
def magnitudeCount : Nat := 2047 * binade

/-- A finite magnitude, by its place among all of them. -/
structure Magnitude where
  index : Nat
  index_lt : index < magnitudeCount
deriving DecidableEq

namespace Magnitude

def zero : Magnitude := ⟨0, by decide⟩

def isZero (m : Magnitude) : Bool :=
  m.index == 0

/-- The magnitudes of the first two binades are spaced by one unit, and the spacing
doubles with every further binade. -/
def exponent (m : Magnitude) : Nat :=
  m.index / binade - 1

/-- Only the first binade lacks the leading bit. -/
def significand (m : Magnitude) : Nat :=
  if m.index / binade = 0 then m.index % binade else binade + m.index % binade

/-- The exact value, counted in units. -/
def units (m : Magnitude) : Nat :=
  m.significand * twoTo m.exponent

@[simp] theorem units_zero : zero.units = 0 := by decide

end Magnitude

end Binary64

inductive Binary64 where
  | nan
  | infinity (negative : Bool)
  | finite (negative : Bool) (magnitude : Binary64.Magnitude)
deriving DecidableEq

namespace Binary64

def zero : Binary64 := finite false .zero

def one : Binary64 := finite false ⟨1023 * binade, by decide⟩

instance : Inhabited Binary64 := ⟨zero⟩

def isNan : Binary64 → Bool
  | nan => true
  | _ => false

@[simp] theorem isNan_eq_true_iff (x : Binary64) : x.isNan = true ↔ x = nan := by
  cases x <;> simp [isNan]

/-- The number with the given bit pattern: sign, eleven bits of exponent, fifty-two
of fraction. -/
def ofBits (bits : UInt64) : Binary64 :=
  let negative := decide (twoTo 63 ≤ bits.toNat)
  let index := bits.toNat % twoTo 63
  if h : index < magnitudeCount then finite negative ⟨index, h⟩
  else if index = magnitudeCount then infinity negative
  else nan

/-- The exact value of a finite number, counted in units. -/
def signedUnits (negative : Bool) (m : Magnitude) : Int :=
  if negative then -m.units else m.units

/-- The whole number that `x` equals, if it equals one. -/
def whole? : Binary64 → Option Int
  | finite negative m =>
    if m.units % unitsPerOne = 0 then some (signedUnits negative m / unitsPerOne) else none
  | _ => none

end Binary64
end Reckoner
