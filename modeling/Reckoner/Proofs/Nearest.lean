import Mathlib.Algebra.Order.Field.Rat
import Mathlib.Tactic.Linarith
import Mathlib.Tactic.Ring
import Reckoner.Nearest

/-!
# How near the nearest whole number is

The whole number that rounding chooses lies within a half of the quotient.  So no whole
number is nearer to it, and one that is as near can only be the other neighbour of a
quotient halfway between two, of which rounding has chosen the even one.
-/

namespace Reckoner

variable {n d k : Nat}

/-! ## In whole numbers -/

theorem le_nearest (hd : 0 < d) (h : k * d ≤ n) : k ≤ nearest n d := by
  have hquotient : k ≤ n / d := (Nat.le_div_iff_mul_le hd).mpr h
  unfold nearest
  split <;> omega

theorem nearest_le (hd : 0 < d) (h : n ≤ k * d) : nearest n d ≤ k := by
  have hhalf := two_mul_nearest_mul_le n d
  have hlt : nearest n d * d < (k + 1) * d := by
    rw [Nat.add_mul]
    omega
  exact Nat.le_of_lt_succ (Nat.lt_of_mul_lt_mul_right hlt)

theorem nearest_mod_two_of_tie (hd : 0 < d)
    (h : 2 * (nearest n d * d) = 2 * n + d ∨ 2 * n = 2 * (nearest n d * d) + d) :
    nearest n d % 2 = 0 := by
  have hparts : d * (n / d) + n % d = n := Nat.div_add_mod n d
  have hcomm : n / d * d = d * (n / d) := Nat.mul_comm _ _
  have hsmall : n % d < d := Nat.mod_lt n hd
  unfold nearest at h ⊢
  split at h
  · next hdown =>
      rw [if_pos hdown]
      omega
  · next hup =>
      rw [if_neg hup]
      rw [Nat.add_mul] at h
      omega

/-- A quotient that is half below an even number is rounded up to it. -/
theorem le_nearest_iff_of_even (hd : 0 < d) (hk : k % 2 = 0) :
    k ≤ nearest n d ↔ 2 * (k * d) ≤ 2 * n + d := by
  have hhigh := two_mul_nearest_mul_le n d
  have hlow := two_mul_le_nearest_mul n d hd
  constructor
  · intro h
    have hmul := Nat.mul_le_mul_right d h
    omega
  · intro h
    by_contra hlt
    have hmul : (nearest n d + 1) * d ≤ k * d := Nat.mul_le_mul_right d (Nat.lt_of_not_le hlt)
    rw [Nat.add_mul, Nat.one_mul] at hmul
    have heven := nearest_mod_two_of_tie hd (.inr (by omega : 2 * n = 2 * (nearest n d * d) + d))
    have hsame : k * d = (nearest n d + 1) * d := by
      rw [Nat.add_mul, Nat.one_mul]
      omega
    have hk' : k = nearest n d + 1 := Nat.eq_of_mul_eq_mul_right hd hsame
    omega

/-! ## In distances -/

/-- What lies on the way from `z` to `x` is nearer to `x`. -/
theorem abs_sub_le_of_between {x y z : ℚ} (h : z ≤ y ∧ y ≤ x ∨ x ≤ y ∧ y ≤ z) :
    |y - x| ≤ |z - x| ∧ (|z - x| = |y - x| → z = y) := by
  rcases h with ⟨hzy, hyx⟩ | ⟨hxy, hyz⟩
  · rw [abs_of_nonpos (sub_nonpos.mpr hyx), abs_of_nonpos (sub_nonpos.mpr (hzy.trans hyx))]
    exact ⟨by linarith, fun htie ↦ by linarith⟩
  · rw [abs_of_nonneg (sub_nonneg.mpr hxy), abs_of_nonneg (sub_nonneg.mpr (hxy.trans hyz))]
    exact ⟨by linarith, fun htie ↦ by linarith⟩

theorem sub_div_mul_self (n : Nat) (hd : 0 < d) (z : ℚ) : (z - n / d) * d = z * d - n := by
  rw [sub_mul, div_mul_cancel₀ _ (Nat.cast_ne_zero.mpr hd.ne')]

theorem abs_nearest_sub_le_half (n : Nat) (hd : 0 < d) :
    |(nearest n d : ℚ) - n / d| ≤ 1 / 2 := by
  have hpos : (0 : ℚ) < d := Nat.cast_pos.mpr hd
  have hhigh : (2 * (nearest n d * d) : ℚ) ≤ 2 * n + d := mod_cast two_mul_nearest_mul_le n d
  have hlow : (2 * n : ℚ) ≤ 2 * (nearest n d * d) + d := mod_cast two_mul_le_nearest_mul n d hd
  rw [abs_le]
  constructor
  · refine le_of_mul_le_mul_right ?_ hpos
    rw [sub_div_mul_self n hd]
    linarith
  · refine le_of_mul_le_mul_right ?_ hpos
    rw [sub_div_mul_self n hd]
    linarith

theorem even_nearest_of_abs_eq_half (hd : 0 < d) (h : |(nearest n d : ℚ) - n / d| = 1 / 2) :
    Even (nearest n d) := by
  have hscaled := sub_div_mul_self n hd (nearest n d)
  refine Nat.even_iff.mpr (nearest_mod_two_of_tie hd ?_)
  rcases (abs_eq (by norm_num)).mp h with habove | hbelow
  · have hcast : (2 * (nearest n d * d) : ℚ) = 2 * n + d := by
      rw [habove] at hscaled
      linarith
    exact .inl (mod_cast hcast)
  · have hcast : (2 * n : ℚ) = 2 * (nearest n d * d) + d := by
      rw [hbelow] at hscaled
      linarith
    exact .inr (mod_cast hcast)

/-- Any other whole number is at least as far from the quotient as the nearest can be. -/
theorem half_le_abs_sub (n : Nat) (hd : 0 < d) {z : ℤ} (hz : z ≠ nearest n d) :
    1 / 2 ≤ |(z : ℚ) - n / d| := by
  have hapart : (1 : ℚ) ≤ |(z : ℚ) - nearest n d| := by
    exact mod_cast Int.one_le_abs (sub_ne_zero.mpr hz)
  have htriangle := abs_sub_le (z : ℚ) (n / d) (nearest n d)
  have hnear := abs_nearest_sub_le_half n hd
  rw [abs_sub_comm] at hnear
  linarith

theorem abs_nearest_sub_le (n : Nat) (hd : 0 < d) (z : ℤ) :
    |(nearest n d : ℚ) - n / d| ≤ |(z : ℚ) - n / d| := by
  by_cases hz : z = nearest n d
  · rw [hz, Int.cast_natCast]
  · exact (abs_nearest_sub_le_half n hd).trans (half_le_abs_sub n hd hz)

theorem even_nearest_of_abs_eq (hd : 0 < d) {z : ℤ} (hz : z ≠ nearest n d)
    (htie : |(z : ℚ) - n / d| = |(nearest n d : ℚ) - n / d|) : Even (nearest n d) :=
  even_nearest_of_abs_eq_half hd
    (le_antisymm (abs_nearest_sub_le_half n hd) (htie ▸ half_le_abs_sub n hd hz))

end Reckoner
