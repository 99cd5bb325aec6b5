/-!
# Sets of code points

A class of characters is given by the inclusive ranges of its code points, so
that a class of a standard is a table and membership is one search.
-/

namespace Reckoner
namespace Text

/-- Inclusive ranges of code points. -/
abbrev CodePoints := List (Nat × Nat)

namespace CodePoints

def covers (ranges : CodePoints) (c : Char) : Bool :=
  ranges.any fun r ↦ decide (r.1 ≤ c.toNat) && decide (c.toNat ≤ r.2)

@[simp] theorem covers_eq_true_iff (ranges : CodePoints) (c : Char) :
    ranges.covers c = true ↔ ∃ r ∈ ranges, r.1 ≤ c.toNat ∧ c.toNat ≤ r.2 := by
  simp [covers]

end CodePoints

end Text
end Reckoner
