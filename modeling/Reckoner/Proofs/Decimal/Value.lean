import Reckoner.Decimal.Basic
import Reckoner.Proofs.Binary64.Between

/-!
# The value of a decimal

A decimal is a rational number, and reading it rounds this number once.  The two shortcuts
in reading, for powers of ten far outside the range, give what rounding gives.
-/

namespace Reckoner

open Binary64

theorem tenTo_cast (k : Nat) : (tenTo k : ℚ) = 10 ^ k :=
  Nat.cast_pow 10 k

/-- Of the two powers one is always one. -/
theorem ten_zpow_eq_div (e : ℤ) : (10 : ℚ) ^ e = tenTo e.toNat / tenTo (-e).toNat := by
  rw [tenTo_cast, tenTo_cast, ← zpow_natCast, ← zpow_natCast, ← zpow_sub₀ (by norm_num)]
  congr 1
  omega

theorem ten_zpow_pos (e : ℤ) : (0 : ℚ) < 10 ^ e :=
  zpow_pos (by norm_num) e

theorem ten_zpow_le {j k : ℤ} (h : j ≤ k) : (10 : ℚ) ^ j ≤ 10 ^ k :=
  zpow_le_zpow_right₀ (by norm_num) h

theorem ten_zpow_add_natCast (e : ℤ) (j : Nat) :
    (10 : ℚ) ^ (e + j) = (10 ^ j : Nat) * 10 ^ e := by
  rw [zpow_add₀ (by norm_num), zpow_natCast, mul_comm, Nat.cast_pow, Nat.cast_ofNat]

/-- Zeros at the end of a coefficient count in the exponent. -/
theorem natCast_mul_ten_pow (c j : Nat) (e : ℤ) :
    ((c * 10 ^ j : Nat) : ℚ) * 10 ^ e = c * 10 ^ (e + j) := by
  rw [ten_zpow_add_natCast, Nat.cast_mul, mul_assoc]

namespace Decimal

/-- The number that a decimal denotes. -/
def value (d : Decimal) : ℚ :=
  d.coefficient * 10 ^ d.exponent

variable {d : Decimal} {n k : Nat} {m : Magnitude}

theorem value_nonneg (d : Decimal) : 0 ≤ d.value :=
  mul_nonneg (Nat.cast_nonneg _) (ten_zpow_pos _).le

theorem value_eq_div (d : Decimal) : d.value = d.numerator / d.denominator := by
  rw [value, ten_zpow_eq_div, numerator, denominator, Nat.cast_mul, mul_div_assoc]

/-! ## Digits -/

theorem digitCount_pos (n : Nat) : 0 < digitCount n :=
  Nat.length_toDigits_pos

theorem digitCount_le_iff (hk : 0 < k) : digitCount n ≤ k ↔ n < 10 ^ k :=
  Nat.length_toDigits_le_iff (by decide) hk

theorem lt_pow_digitCount (n : Nat) : n < 10 ^ digitCount n :=
  (digitCount_le_iff (digitCount_pos n)).mp (Nat.le_refl _)

theorem pow_le_of_lt_digitCount (hn : n ≠ 0) (hk : k < digitCount n) : 10 ^ k ≤ n := by
  rcases Nat.eq_zero_or_pos k with rfl | hpos
  · exact Nat.one_le_iff_ne_zero.mpr hn
  · exact Nat.le_of_not_lt fun hlt ↦ absurd ((digitCount_le_iff hpos).mpr hlt) (Nat.not_le_of_lt hk)

theorem value_lt_ceiling (d : Decimal) : d.value < 10 ^ d.ceiling := by
  rw [value, ceiling, ten_zpow_add_natCast]
  exact mul_lt_mul_of_pos_right (mod_cast lt_pow_digitCount d.coefficient) (ten_zpow_pos _)

theorem ten_zpow_le_value (hd : d.coefficient ≠ 0) :
    (10 : ℚ) ^ (d.ceiling - 1) ≤ d.value := by
  have hpos := digitCount_pos d.coefficient
  have hpow := pow_le_of_lt_digitCount hd (Nat.sub_lt hpos Nat.one_pos)
  have hexponent : d.ceiling - 1 = d.exponent + (digitCount d.coefficient - 1 : Nat) := by
    rw [ceiling]
    omega
  rw [value, hexponent, ten_zpow_add_natCast]
  exact mul_le_mul_of_nonneg_right (mod_cast hpow) (ten_zpow_pos _).le

/-! ## Reading rounds once -/

theorem round_roundsTo_value (s : Bool) (d : Decimal) :
    RoundsTo s d.value (round s (d.numerator * unitsPerOne) d.denominator) := by
  have hunit : (unitsPerOne : ℚ) ≠ 0 := Nat.cast_ne_zero.mpr unitsPerOne_pos.ne'
  have hround := round_roundsTo s (d.numerator * unitsPerOne) d.denominator_pos
  rwa [Nat.cast_mul, div_right_comm, mul_div_cancel_right₀ _ hunit, ← value_eq_div] at hround

theorem magnitude?_eq_some_iff (s : Bool) :
    d.magnitude? = some m ↔ RoundsTo s d.value (finite s m) := by
  have hunit : (unitsPerOne : ℚ) ≠ 0 := Nat.cast_ne_zero.mpr unitsPerOne_pos.ne'
  rw [magnitude?, Magnitude.ofUnits?_eq_some_iff s d.denominator_pos, Nat.cast_mul, div_right_comm,
    mul_div_cancel_right₀ _ hunit, ← value_eq_div]

end Decimal

namespace Binary64

variable {r x : ℚ}

/-- The least number above zero is one unit. -/
theorem Representable.le_abs (hr : Representable r) (hne : r ≠ 0) :
    (2 : ℚ) ^ (-1074 : ℤ) ≤ |r| := by
  obtain ⟨q, e, -, hlow, -, rfl⟩ := hr
  have hq : q ≠ 0 := by
    rintro rfl
    exact hne (by simp)
  have hone : (1 : ℚ) ≤ |(q : ℚ)| := mod_cast Int.one_le_abs hq
  rw [abs_mul, abs_of_pos (zpow_pos (two_pos : (0 : ℚ) < 2) e)]
  calc (2 : ℚ) ^ (-1074 : ℤ) ≤ 2 ^ e := zpow_le_zpow_right₀ one_le_two hlow
    _ ≤ |(q : ℚ)| * 2 ^ e := le_mul_of_one_le_left (zpow_pos two_pos e).le hone

theorem one_le_overflow : (1 : ℚ) ≤ 2 ^ 1024 - 2 ^ 970 := by
  have hdouble : (2 : ℚ) * 2 ^ 970 ≤ 2 ^ 1024 := by
    rw [← pow_succ']
    exact pow_le_pow_right₀ one_le_two (by decide)
  calc (1 : ℚ) ≤ 2 ^ 970 := one_le_pow₀ one_le_two
    _ = 2 * 2 ^ 970 - 2 ^ 970 := by rw [two_mul, add_sub_cancel_right]
    _ ≤ 2 ^ 1024 - 2 ^ 970 := sub_le_sub_right hdouble _

/-- What is less than half a unit is rounded to zero. -/
theorem roundsTo_zero (s : Bool) (hnonneg : 0 ≤ x) (hlt : 2 * x < 2 ^ (-1074 : ℤ)) :
    RoundsTo s x (finite s .zero) := by
  have hzero := Magnitude.value_zero
  have hfar : ∀ r, Representable r → r ≠ 0 → x < |r - x| := by
    intro r hr hne
    have hle := hr.le_abs hne
    have htriangle := abs_sub_abs_le_abs_sub r x
    rw [abs_of_nonneg hnonneg] at htriangle
    linarith
  have hdist : |Magnitude.zero.value - x| = x := by
    rw [hzero, zero_sub, abs_neg, abs_of_nonneg hnonneg]
  refine .finite .zero ?_ ⟨fun r hr ↦ ?_, fun r hr hne htie ↦ ?_⟩
  · have hsmall : (2 : ℚ) ^ (-1074 : ℤ) ≤ 1 := zpow_le_one_of_nonpos₀ one_le_two (by decide)
    have hdouble : x ≤ 2 * x := le_mul_of_one_le_left hnonneg one_le_two
    exact (hdouble.trans_lt hlt).trans_le (hsmall.trans one_le_overflow)
  · by_cases hne : r = 0
    · rw [hne, hzero]
    · rw [hdist]
      exact (hfar r hr hne).le
  · rw [hdist] at htie
    exact absurd htie (hfar r hr (hzero ▸ hne)).ne'

theorem two_mul_ten_zpow_lt : 2 * (10 : ℚ) ^ (-331 : ℤ) < 2 ^ (-1074 : ℤ) := by
  have hpow : 2 * 2 ^ 1074 < 10 ^ 331 := by decide +kernel
  have hcast : (2 * 2 ^ 1074 : ℚ) < 10 ^ 331 := by exact_mod_cast hpow
  rw [zpow_neg, zpow_neg, ← div_eq_mul_inv, div_lt_iff₀ (ten_zpow_pos _), inv_mul_eq_div,
    lt_div_iff₀ (zpow_pos two_pos _)]
  exact hcast

theorem overflow_le_ten_zpow : (2 ^ 1024 - 2 ^ 970 : ℚ) ≤ 10 ^ (310 : ℤ) := by
  have hpow : 2 ^ 1024 ≤ 10 ^ 310 := by decide +kernel
  have hcast : (2 ^ 1024 : ℚ) ≤ 10 ^ 310 := by exact_mod_cast hpow
  exact (sub_le_self _ (pow_nonneg zero_le_two 970)).trans hcast

/-- Reading a decimal rounds its value correctly. -/
theorem ofDecimal_roundsTo (s : Bool) (d : Decimal) : RoundsTo s d.value (ofDecimal s d) := by
  rw [ofDecimal]
  split
  · next hsmall =>
      refine roundsTo_zero s d.value_nonneg ?_
      rcases hsmall with hzero | hlow
      · rw [Decimal.value, hzero, Nat.cast_zero, zero_mul, mul_zero]
        exact zpow_pos two_pos _
      · have hlt : d.value < 10 ^ (-331 : ℤ) :=
          d.value_lt_ceiling.trans_le (ten_zpow_le (Int.le_of_lt_add_one hlow))
        exact (mul_lt_mul_of_pos_left hlt two_pos).trans two_mul_ten_zpow_lt
  · next hsmall =>
      split
      · next hhigh =>
          have hle := Decimal.ten_zpow_le_value fun hzero ↦ hsmall (.inl hzero)
          refine .infinity (overflow_le_ten_zpow.trans ((ten_zpow_le ?_).trans hle))
          omega
      · exact d.round_roundsTo_value s

end Binary64
end Reckoner
