import Reckoner.Binary64.Basic
import Reckoner.Nearest

/-!
# Rounding to binary64

An exact magnitude, a quotient of whole numbers of units, is rounded to the nearest
binary64 magnitude, half to even.  What rounds to a place past the last finite
magnitude overflows.
-/

namespace Reckoner
namespace Binary64

/-- The power of two that spaces the magnitudes around `n / d` units. -/
def spacing (n d : Nat) : Nat :=
  (n / d).log2 - 52

/-- The place of the magnitude nearest to `n / d` units, past the last one on
overflow.  A significand that rounds up to the next power of two carries into the
next binade, whose first place it then denotes. -/
def placeOf (n d : Nat) : Nat :=
  spacing n d * binade + nearest n (d * twoTo (spacing n d))

/-- The magnitude nearest to `n / d` units, unless that overflows. -/
def Magnitude.ofUnits? (n d : Nat) : Option Magnitude :=
  if h : placeOf n d < magnitudeCount then some ⟨placeOf n d, h⟩ else none

/-- `n / d` units with a sign, rounded. -/
def round (negative : Bool) (n d : Nat) : Binary64 :=
  match Magnitude.ofUnits? n d with
  | some m => finite negative m
  | none => infinity negative

def ofNat (n : Nat) : Binary64 :=
  round false (n * unitsPerOne) 1

def ofInt (n : Int) : Binary64 :=
  round (decide (n < 0)) (n.natAbs * unitsPerOne) 1

def ofBool (b : Bool) : Binary64 :=
  if b then one else zero

end Binary64
end Reckoner
