import Reckoner.Binary64.Rounding

/-!
# Binary64 arithmetic

Each operation rounds the exact result once.  Division by a zero gives an infinity
whose sign is the product of the two signs, the sign of the zero included, and a
result that no number is (`0 / 0`, `∞ - ∞`, `0 * ∞`, `∞ / ∞`) is `nan`.
-/

namespace Reckoner
namespace Binary64

def neg : Binary64 → Binary64
  | nan => nan
  | infinity s => infinity !s
  | finite s m => finite (!s) m

@[simp] theorem neg_neg (x : Binary64) : x.neg.neg = x := by
  cases x <;> simp [neg]

/-- A sum that vanishes is negative only where both terms are. -/
def add : Binary64 → Binary64 → Binary64
  | nan, _ | _, nan => nan
  | infinity s, infinity t => if s = t then infinity s else nan
  | infinity s, finite _ _ => infinity s
  | finite _ _, infinity t => infinity t
  | finite s m, finite t n =>
    let sum := signedUnits s m + signedUnits t n
    if sum = 0 then finite (s && t) .zero else round (decide (sum < 0)) sum.natAbs 1

def sub (x y : Binary64) : Binary64 :=
  x.add y.neg

def mul : Binary64 → Binary64 → Binary64
  | nan, _ | _, nan => nan
  | infinity s, infinity t => infinity (s != t)
  | infinity s, finite t n => if n.isZero then nan else infinity (s != t)
  | finite s m, infinity t => if m.isZero then nan else infinity (s != t)
  | finite s m, finite t n => round (s != t) (m.units * n.units) unitsPerOne

def div : Binary64 → Binary64 → Binary64
  | nan, _ | _, nan => nan
  | infinity _, infinity _ => nan
  | infinity s, finite t _ => infinity (s != t)
  | finite s _, infinity t => finite (s != t) .zero
  | finite s m, finite t n =>
    if n.isZero then if m.isZero then nan else infinity (s != t)
    else round (s != t) (m.units * unitsPerOne) n.units

end Binary64
end Reckoner
