/-!
# The nearest whole number

Every rounding of this library, to a binary number and to a decimal one, is the
choice of the whole number nearest to an exact quotient; of two that are equally
near, the even one.
-/

namespace Reckoner

/-- The whole number nearest to `n / d`, the even one of two. -/
def nearest (n d : Nat) : Nat :=
  if 2 * (n % d) < d ∨ 2 * (n % d) = d ∧ n / d % 2 = 0 then n / d else n / d + 1

/-- The result is at most half above the quotient. -/
theorem two_mul_nearest_mul_le (n d : Nat) : 2 * (nearest n d * d) ≤ 2 * n + d := by
  have parts : d * (n / d) + n % d = n := Nat.div_add_mod n d
  have comm : n / d * d = d * (n / d) := Nat.mul_comm _ _
  unfold nearest
  split
  · omega
  · rw [Nat.add_mul]
    omega

/-- The result is at most half below the quotient. -/
theorem two_mul_le_nearest_mul (n d : Nat) (h : 0 < d) :
    2 * n ≤ 2 * (nearest n d * d) + d := by
  have parts : d * (n / d) + n % d = n := Nat.div_add_mod n d
  have comm : n / d * d = d * (n / d) := Nat.mul_comm _ _
  have small : n % d < d := Nat.mod_lt n h
  unfold nearest
  split
  · omega
  · rw [Nat.add_mul]
    omega

@[simp] theorem nearest_mul_self (q d : Nat) (h : 0 < d) : nearest (q * d) d = q := by
  simp [nearest, h]

@[simp] theorem nearest_one (n : Nat) : nearest n 1 = n := by
  simp [nearest, Nat.mod_one]

end Reckoner
