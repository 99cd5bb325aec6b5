import Reckoner.Proofs.Decimal.Shortest

/-!
# Rounding to a number of digits

A quotient is rounded to a given number of significant digits on the multiples of one step,
which its first digit decides.  The result is nevertheless the nearest of all decimals with
so many digits, since each of them is on the far side of a multiple of the step.  When all
digits are nines that round up, the coefficient is the next power of ten; it is then
written with one digit less and a greater exponent.
-/

namespace Reckoner
namespace Decimal

/-- Of all decimals with `count` significant digits, `c * 10 ^ e` is the nearest to `x`, and
of two that are equally near the one whose last digit is even.  Its digits are those of
`c`; those of the others are those of `z`, which may have either sign. -/
structure IsRounded (count : Nat) (x : ℚ) (c : Nat) (e : ℤ) : Prop where
  pow_le : 10 ^ (count - 1) ≤ c
  lt_pow : c < 10 ^ count
  abs_sub_le : ∀ z k : ℤ, |z| < 10 ^ count → |(c : ℚ) * 10 ^ e - x| ≤ |(z : ℚ) * 10 ^ k - x|
  even_of_tie : ∀ z k : ℤ, |z| < 10 ^ count → (z : ℚ) * 10 ^ k ≠ c * 10 ^ e →
    |(z : ℚ) * 10 ^ k - x| = |(c : ℚ) * 10 ^ e - x| → Even c

variable {d : Decimal} {count c n q : Nat} {e z k : ℤ}

/-! ## The nearest decimal -/

/-- A multiple of the step is at least as near as any decimal with so few digits, and
nearer unless it is the same. -/
theorem exists_nearer_multiple (hcount : 0 < count) (hn : 0 < n) (hq : 0 < q)
    (hc : c < 10 ^ count) (e : ℤ) :
    ∃ w : ℤ, |(w : ℚ) * 10 ^ stepFor count n q - n / q| ≤ |(c : ℚ) * 10 ^ e - n / q| ∧
      (|(c : ℚ) * 10 ^ e - n / q| = |(w : ℚ) * 10 ^ stepFor count n q - n / q| →
        (c : ℚ) * 10 ^ e = w * 10 ^ stepFor count n q) := by
  rcases exists_wholeSteps_between hcount hn hq hc e with hbelow | habove
  · exact ⟨wholeSteps count n q, abs_sub_le_of_between (.inl hbelow)⟩
  · exact ⟨(wholeSteps count n q + 1 : Nat), abs_sub_le_of_between (.inr habove)⟩

theorem abs_significant_sub_le_of_lt (hcount : 0 < count) (hn : 0 < n) (hq : 0 < q)
    (hc : c < 10 ^ count) (e : ℤ) :
    |(significant count n q).value - n / q| ≤ |(c : ℚ) * 10 ^ e - n / q| := by
  obtain ⟨w, hw, -⟩ := exists_nearer_multiple hcount hn hq hc e
  exact (abs_significant_sub_le count n hq w).trans hw

theorem even_significant_of_tie_of_lt (hcount : 0 < count) (hn : 0 < n) (hq : 0 < q)
    (hc : c < 10 ^ count) (hne : (c : ℚ) * 10 ^ e ≠ (significant count n q).value)
    (htie : |(c : ℚ) * 10 ^ e - n / q| = |(significant count n q).value - n / q|) :
    Even (significant count n q).coefficient := by
  obtain ⟨w, hw, hsame⟩ := exists_nearer_multiple hcount hn hq hc e
  have hnear := abs_significant_sub_le count n hq w
  -- what is as near as the nearest multiple is itself a multiple
  have hmultiple := hsame (le_antisymm (htie.trans_le hnear) hw)
  rw [hmultiple] at hne htie
  refine even_significant_of_tie hq (fun heq ↦ hne ?_) htie
  rw [heq, Int.cast_natCast]
  rfl

/-- A negative decimal is farther from a quotient than zero is. -/
theorem abs_zero_sub_lt_of_neg (n q : Nat) (hz : z < 0) (k : ℤ) :
    |((0 : Nat) : ℚ) * 10 ^ k - n / q| < |(z : ℚ) * 10 ^ k - n / q| := by
  have hquotient : (0 : ℚ) ≤ n / q := div_nonneg (Nat.cast_nonneg n) (Nat.cast_nonneg q)
  have hneg : (z : ℚ) * 10 ^ k < 0 := mul_neg_of_neg_of_pos (mod_cast hz) (ten_zpow_pos k)
  rw [Nat.cast_zero, zero_mul, zero_sub, abs_neg, abs_of_nonneg hquotient,
    abs_of_neg (by linarith)]
  linarith

/-! ## Its digits -/

theorem coefficient_significant (count n q : Nat) :
    (significant count n q).coefficient = wholeSteps count n q ∨
      (significant count n q).coefficient = wholeSteps count n q + 1 := by
  rcases significant_or_across count n q with ⟨hnear, -⟩ | ⟨hnear, -⟩
  · exact .inl (congrArg coefficient hnear)
  · exact .inr (congrArg coefficient hnear)

theorem pow_le_coefficient_significant (count : Nat) (hn : 0 < n) (hq : 0 < q) :
    10 ^ (count - 1) ≤ (significant count n q).coefficient := by
  have hpow := pow_le_wholeSteps count hn hq
  rcases coefficient_significant count n q with h | h <;> omega

theorem coefficient_significant_ne_zero (count : Nat) (hn : 0 < n) (hq : 0 < q) :
    (significant count n q).coefficient ≠ 0 := by
  have hpow := pow_le_coefficient_significant count hn hq
  exact (Nat.lt_of_lt_of_le (Nat.pow_pos (by decide)) hpow).ne'

/-- A carry into one more digit is undone by the exponent. -/
theorem exists_digits_significant (hcount : 1 < count) (hn : 0 < n) (hq : 0 < q) :
    ∃ (c : Nat) (e : ℤ), 10 ^ (count - 1) ≤ c ∧ c < 10 ^ count ∧
      (significant count n q).value = c * 10 ^ e ∧
      (Even (significant count n q).coefficient → Even c) := by
  have hlow := pow_le_coefficient_significant count hn hq
  have hsteps := wholeSteps_lt_pow (Nat.zero_lt_of_lt hcount) hn hq
  by_cases hlt : (significant count n q).coefficient < 10 ^ count
  · exact ⟨_, (significant count n q).exponent, hlow, hlt, rfl, id⟩
  · have hcarry : (significant count n q).coefficient = 10 ^ (count - 1) * 10 := by
      rw [← Nat.pow_succ, Nat.succ_eq_add_one, Nat.sub_add_cancel (Nat.le_of_lt hcount)]
      rcases coefficient_significant count n q with h | h <;> omega
    refine ⟨10 ^ (count - 1), (significant count n q).exponent + 1, le_rfl,
      Nat.pow_lt_pow_right (by decide) (by omega), ?_, fun _ ↦ ?_⟩
    · have hstep := natCast_mul_ten_pow (10 ^ (count - 1)) 1 (significant count n q).exponent
      rwa [Nat.pow_one, ← hcarry] at hstep
    · exact Nat.even_pow.mpr ⟨by decide, by omega⟩

/-- A quotient is rounded correctly to any number of digits above one. -/
theorem exists_isRounded_significant (hcount : 1 < count) (hn : 0 < n) (hq : 0 < q) :
    ∃ (c : Nat) (e : ℤ), IsRounded count (n / q) c e ∧
      (significant count n q).value = c * 10 ^ e := by
  have hpos : 0 < count := Nat.zero_lt_of_lt hcount
  obtain ⟨c, e, hlow, hhigh, hvalue, heven⟩ := exists_digits_significant hcount hn hq
  have hzero := abs_significant_sub_le_of_lt (c := 0) hpos hn hq (by positivity)
  refine ⟨c, e, ⟨hlow, hhigh, fun z k hz ↦ ?_, fun z k hz hne htie ↦ ?_⟩, hvalue⟩
  · rw [← hvalue]
    rcases lt_or_ge z 0 with hneg | hnonneg
    · exact (hzero k).trans (abs_zero_sub_lt_of_neg n q hneg k).le
    · lift z to Nat using hnonneg
      exact abs_significant_sub_le_of_lt hpos hn hq (mod_cast hz) k
  · rw [← hvalue] at hne htie
    rcases lt_or_ge z 0 with hneg | hnonneg
    · exact absurd htie ((hzero k).trans_lt (abs_zero_sub_lt_of_neg n q hneg k)).ne'
    · lift z to Nat using hnonneg
      exact heven (even_significant_of_tie_of_lt hpos hn hq (mod_cast hz) hne htie)

end Decimal
end Reckoner
