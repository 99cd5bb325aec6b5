import Reckoner.Decimal.Basic

/-!
# Choosing a decimal for a binary64 magnitude

Two choices are made here, both in exact arithmetic.  `significant` is the decimal
with a given number of significant digits that is nearest to a quotient.
`shortest` is a decimal with the fewest digits that rounds to a given magnitude
and, of those, the nearest to it.
-/

namespace Reckoner
namespace Decimal

/-- The decimal exponent of the first significant digit of `n / d`, which is to be
positive. -/
def leadingExponent (n d : Nat) : Int :=
  if d ≤ n then digitCount (n / d) - 1 else -digitCount ((d - 1) / n)

/-- The quotient `n / d` counted in steps of `10 ^ step`, as a quotient. -/
def scaled (n d : Nat) (step : Int) : Nat × Nat :=
  (n * tenTo (-step).toNat, d * tenTo step.toNat)

/-- The step of the decimals that have `count` significant digits near `n / d`. -/
def stepFor (count n d : Nat) : Int :=
  leadingExponent n d - (count - 1 : Nat)

/-- The decimal with `count` significant digits nearest to `n / d`.  When all digits
are nines that round up, its coefficient is the next power of ten. -/
def significant (count n d : Nat) : Decimal :=
  let step := stepFor count n d
  let (p, q) := scaled n d step
  ⟨nearest p q, step⟩

/-- The decimal on the same grid at the other side of `n / d`. -/
def significantAcross (count n d : Nat) : Decimal :=
  let step := stepFor count n d
  let (p, q) := scaled n d step
  ⟨if nearest p q = p / q then p / q + 1 else p / q, step⟩

/-- All digits of a magnitude: a unit is `5 ^ 1074 / 10 ^ 1074`. -/
def exact (m : Binary64.Magnitude) : Decimal :=
  ⟨m.units * Nat.pow 5 1074, -1074⟩

/-- The decimal with `count` digits that rounds to `m`, the nearest if there are two
of them next to `m`. -/
def shortestOf? (m : Binary64.Magnitude) (count : Nat) : Option Decimal :=
  let near := significant count m.units Binary64.unitsPerOne
  let across := significantAcross count m.units Binary64.unitsPerOne
  if near.magnitude? = some m then some near
  else if across.magnitude? = some m then some across
  else none

/-- The counts are tried in increasing order, up to that of the exact expansion. -/
def shortest (m : Binary64.Magnitude) : Decimal :=
  let counts := List.range' 1 (digitCount (exact m).coefficient)
  (counts.findSome? (shortestOf? m)).getD (exact m)

end Decimal
end Reckoner
