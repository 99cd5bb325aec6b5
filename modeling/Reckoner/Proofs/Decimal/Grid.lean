import Mathlib.Data.Nat.Cast.Order.Field
import Reckoner.Decimal.Selection
import Reckoner.Proofs.Decimal.Value
import Reckoner.Proofs.Nearest

/-!
# The decimals next to a quotient

The decimals with a given number of digits near a quotient are the multiples of one power
of ten, a step.  The quotient lies between two of them, and these are the two that are
chosen from.  Any other decimal with so few digits, whatever its power of ten, is on the
far side of one of the two.
-/

namespace Reckoner
namespace Decimal

variable {n d count c : Nat}

/-! ## The first digit of a quotient -/

theorem ten_zpow_leadingExponent_le (hn : 0 < n) (hd : 0 < d) :
    (10 : ℚ) ^ leadingExponent n d ≤ n / d := by
  rw [le_div_iff₀ (Nat.cast_pos.mpr hd), leadingExponent]
  split
  · next hle =>
      have hpos := digitCount_pos (n / d)
      have hpow : 10 ^ (digitCount (n / d) - 1) * d ≤ n :=
        (Nat.le_div_iff_mul_le hd).mp
          (pow_le_of_lt_digitCount (Nat.div_pos hle hd).ne' (Nat.sub_lt hpos Nat.one_pos))
      rw [← Nat.cast_one, ← Nat.cast_sub hpos, zpow_natCast]
      exact_mod_cast hpow
  · have hlt := (Nat.div_lt_iff_lt_mul hn).mp (lt_pow_digitCount ((d - 1) / n))
    have hpow : d ≤ n * 10 ^ digitCount ((d - 1) / n) := by
      rw [Nat.mul_comm]
      omega
    rw [zpow_neg, zpow_natCast, inv_mul_le_iff₀ (pow_pos (by norm_num) _), mul_comm]
    exact_mod_cast hpow

theorem lt_ten_zpow_leadingExponent (hn : 0 < n) (hd : 0 < d) :
    (n : ℚ) / d < 10 ^ (leadingExponent n d + 1) := by
  rw [div_lt_iff₀ (Nat.cast_pos.mpr hd), leadingExponent]
  split
  · have hlt := (Nat.div_lt_iff_lt_mul hd).mp (lt_pow_digitCount (n / d))
    rw [sub_add_cancel, zpow_natCast]
    exact_mod_cast hlt
  · next hlt =>
      have hpos := digitCount_pos ((d - 1) / n)
      have hne : (d - 1) / n ≠ 0 := (Nat.div_pos (by omega) hn).ne'
      have hpow : 10 ^ (digitCount ((d - 1) / n) - 1) * n ≤ d - 1 :=
        (Nat.le_div_iff_mul_le hn).mp (pow_le_of_lt_digitCount hne (Nat.sub_lt hpos Nat.one_pos))
      have hless : n * 10 ^ (digitCount ((d - 1) / n) - 1) < d := by
        rw [Nat.mul_comm]
        omega
      have hexponent : -(digitCount ((d - 1) / n) : ℤ) + 1 =
          -((digitCount ((d - 1) / n) - 1 : Nat) : ℤ) := by omega
      rw [hexponent, zpow_neg, zpow_natCast, lt_inv_mul_iff₀ (pow_pos (by norm_num) _), mul_comm]
      exact_mod_cast hless

/-! ## Whole steps in a quotient -/

theorem scaled_snd_pos (n : Nat) (hd : 0 < d) (step : ℤ) : 0 < (scaled n d step).2 :=
  Nat.mul_pos hd (tenTo_pos _)

theorem scaled_div (n d : Nat) (step : ℤ) :
    ((scaled n d step).1 : ℚ) / (scaled n d step).2 = n / d / 10 ^ step := by
  rw [ten_zpow_eq_div, div_div_div_eq, scaled, Nat.cast_mul, Nat.cast_mul]

/-- How many whole steps there are in `n / d`. -/
def wholeSteps (count n d : Nat) : Nat :=
  (scaled n d (stepFor count n d)).1 / (scaled n d (stepFor count n d)).2

theorem wholeSteps_mul_le (count n d : Nat) :
    (wholeSteps count n d : ℚ) * 10 ^ stepFor count n d ≤ n / d := by
  rw [← le_div_iff₀ (ten_zpow_pos _), ← scaled_div]
  exact Nat.cast_div_le

theorem lt_wholeSteps_add_one_mul (count n : Nat) (hd : 0 < d) :
    (n : ℚ) / d < (wholeSteps count n d + 1 : Nat) * 10 ^ stepFor count n d := by
  have hq := scaled_snd_pos n hd (stepFor count n d)
  rw [← div_lt_iff₀ (ten_zpow_pos _), ← scaled_div, div_lt_iff₀ (Nat.cast_pos.mpr hq)]
  exact_mod_cast Nat.lt_mul_of_div_lt (Nat.lt_succ_self _) hq

theorem ten_zpow_eq_mul_stepFor (count n d : Nat) :
    (10 : ℚ) ^ leadingExponent n d = (10 ^ (count - 1) : Nat) * 10 ^ stepFor count n d := by
  rw [← ten_zpow_add_natCast, stepFor, sub_add_cancel]

theorem pow_le_wholeSteps (count : Nat) (hn : 0 < n) (hd : 0 < d) :
    10 ^ (count - 1) ≤ wholeSteps count n d := by
  have hlt := (ten_zpow_leadingExponent_le hn hd).trans_lt (lt_wholeSteps_add_one_mul count n hd)
  rw [ten_zpow_eq_mul_stepFor, mul_lt_mul_iff_left₀ (ten_zpow_pos _), Nat.cast_lt] at hlt
  exact Nat.le_of_lt_succ hlt

theorem wholeSteps_lt_pow (hcount : 0 < count) (hn : 0 < n) (hd : 0 < d) :
    wholeSteps count n d < 10 ^ count := by
  have hlt := (wholeSteps_mul_le count n d).trans_lt (lt_ten_zpow_leadingExponent hn hd)
  have hnext : (10 : ℚ) ^ (leadingExponent n d + 1) =
      (10 ^ count : Nat) * 10 ^ stepFor count n d := by
    rw [← ten_zpow_add_natCast, stepFor]
    congr 1
    omega
  rw [hnext, mul_lt_mul_iff_left₀ (ten_zpow_pos _), Nat.cast_lt] at hlt
  exact hlt

/-- A decimal with at most `count` digits is no nearer to the quotient than the multiple of
a step on its side. -/
theorem exists_wholeSteps_between (hcount : 0 < count) (hn : 0 < n) (hd : 0 < d)
    (hc : c < 10 ^ count) (e : ℤ) :
    (c * 10 ^ e ≤ (wholeSteps count n d : ℚ) * 10 ^ stepFor count n d ∧
        (wholeSteps count n d : ℚ) * 10 ^ stepFor count n d ≤ n / d) ∨
      ((n : ℚ) / d ≤ (wholeSteps count n d + 1 : Nat) * 10 ^ stepFor count n d ∧
        (wholeSteps count n d + 1 : Nat) * 10 ^ stepFor count n d ≤ (c : ℚ) * 10 ^ e) := by
  have hpos := ten_zpow_pos (stepFor count n d)
  by_cases he : stepFor count n d ≤ e
  · -- the decimal is a multiple of the step itself
    obtain ⟨j, rfl⟩ := Int.le.dest he
    rw [← natCast_mul_ten_pow, mul_le_mul_iff_left₀ hpos, mul_le_mul_iff_left₀ hpos, Nat.cast_le, Nat.cast_le]
    rcases Nat.lt_or_ge (wholeSteps count n d) (c * 10 ^ j) with habove | hbelow
    · exact .inr ⟨(lt_wholeSteps_add_one_mul count n hd).le, habove⟩
    · exact .inl ⟨hbelow, wholeSteps_mul_le count n d⟩
  · -- its digits do not reach up to the first one of the quotient
    refine .inl ⟨?_, wholeSteps_mul_le count n d⟩
    have hleading : (10 : ℚ) ^ leadingExponent n d ≤
        wholeSteps count n d * 10 ^ stepFor count n d := by
      rw [ten_zpow_eq_mul_stepFor, mul_le_mul_iff_left₀ hpos, Nat.cast_le]
      exact pow_le_wholeSteps count hn hd
    have hexponent : e + count ≤ leadingExponent n d := by
      rw [stepFor] at he
      omega
    calc (c : ℚ) * 10 ^ e ≤ (10 ^ count : Nat) * 10 ^ e :=
        mul_le_mul_of_nonneg_right (Nat.cast_le.mpr hc.le) (ten_zpow_pos e).le
      _ = 10 ^ (e + count) := (ten_zpow_add_natCast e count).symm
      _ ≤ 10 ^ leadingExponent n d := ten_zpow_le hexponent
      _ ≤ _ := hleading

end Decimal
end Reckoner
