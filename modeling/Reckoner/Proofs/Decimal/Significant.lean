import Mathlib.Data.Nat.Factorization.Basic
import Reckoner.Decimal.Layout
import Reckoner.Proofs.Decimal.Value

/-!
# Significant digits

The significant digits of a decimal are those of its coefficient up to the last one that
is no zero.  How many there are depends on its value alone: it is the least number of
digits that a coefficient of this value can have.
-/

namespace Reckoner
namespace Decimal

variable {d : Decimal} {c k n : Nat} {e e' : ℤ}

theorem toDigits_mul_pow (hn : 0 < n) (z : Nat) :
    Nat.toDigits 10 (n * 10 ^ z) = Nat.toDigits 10 n ++ List.replicate z '0' := by
  induction z with
  | zero => simp
  | succ z ih =>
      have hpos : 0 < n * 10 ^ z := Nat.mul_pos hn (Nat.pow_pos (by decide))
      have hlast := Nat.toDigits_append_toDigits (b := 10) (by decide) hpos (d := 0) (by decide)
      rw [Nat.pow_succ, ← Nat.mul_assoc, Nat.mul_comm, ← Nat.add_zero (10 * _), ← hlast, ih,
        List.replicate_succ', List.append_assoc]
      rfl

/-- The first digit is no zero. -/
theorem head?_toDigits_ne_zero (hn : n ≠ 0) : (Nat.toDigits 10 n).head? ≠ some '0' := by
  induction n using Nat.strongRecOn with
  | ind n ih =>
      rw [Nat.toDigits_eq_if (by decide)]
      split
      · next hlt =>
          intro h
          rw [List.head?_cons, Option.some.injEq, Nat.digitChar_eq_zero] at h
          exact hn h
      · next hge =>
          rw [List.head?_append_of_ne_nil _ Nat.toDigits_ne_nil]
          exact ih (n / 10) (by omega) (by omega)

/-- The last digit is no zero. -/
theorem exists_toDigits_eq_append (hn : n % 10 ≠ 0) :
    ∃ digits c, Nat.toDigits 10 n = digits ++ [c] ∧ c ≠ '0' := by
  rw [Nat.toDigits_eq_if (by decide)]
  split
  · next hlt => exact ⟨[], _, rfl, by rwa [ne_eq, Nat.digitChar_eq_zero, ← Nat.mod_eq_of_lt hlt]⟩
  · exact ⟨_, _, rfl, by rwa [ne_eq, Nat.digitChar_eq_zero]⟩

theorem significantDigits_mul_pow (hn : n % 10 ≠ 0) (z : Nat) (e : ℤ) :
    significantDigits ⟨n * 10 ^ z, e⟩ = Nat.toDigits 10 n := by
  obtain ⟨digits, c, hdigits, hc⟩ := exists_toDigits_eq_append hn
  have hpos : 0 < n := Nat.pos_of_ne_zero fun hzero ↦ hn (by rw [hzero])
  have hzeros : ∀ c ∈ List.replicate z '0', (c == '0') = true := by simp
  rw [significantDigits, toDigits_mul_pow hpos, hdigits, List.reverse_append,
    List.reverse_replicate, List.dropWhile_append_of_pos hzeros, List.reverse_concat,
    List.dropWhile_cons_of_neg (by simpa using hc), List.reverse_cons, List.reverse_reverse]

/-- The significant digits are a numeral without zeros at its end, which denotes the
decimal with the power of ten that is left. -/
theorem exists_significand (hd : d.coefficient ≠ 0) :
    ∃ (n : Nat) (e : ℤ), n % 10 ≠ 0 ∧ d.significantDigits = Nat.toDigits 10 n ∧
      d.value = n * 10 ^ e ∧ d.ceiling = e + digitCount n := by
  obtain ⟨z, n, hn, hcoefficient⟩ := Nat.exists_eq_pow_mul_and_not_dvd hd 10 (by decide)
  rw [Nat.mul_comm] at hcoefficient
  have hmod : n % 10 ≠ 0 := fun hzero ↦ hn (Nat.dvd_of_mod_eq_zero hzero)
  have hpos : 0 < n := Nat.pos_of_ne_zero fun hzero ↦ hmod (by rw [hzero])
  obtain ⟨coefficient, exponent⟩ := d
  dsimp only at hcoefficient
  subst hcoefficient
  refine ⟨n, exponent + z, hmod, significantDigits_mul_pow hmod z exponent, ?_, ?_⟩
  · exact natCast_mul_ten_pow n z exponent
  · rw [ceiling, digitCount, toDigits_mul_pow hpos, List.length_append, List.length_replicate,
      digitCount]
    dsimp only
    omega

theorem significantDigits_of_zero (hd : d.coefficient = 0) : d.significantDigits = [] := by
  rw [significantDigits, hd, Nat.toDigits_zero]
  rfl

/-- Without zeros at the end no coefficient of the same value is smaller. -/
theorem le_of_mul_zpow_eq (hn : n % 10 ≠ 0) (h : (n * 10 ^ e' : ℚ) = c * 10 ^ e) : n ≤ c := by
  rcases le_or_gt e e' with hle | hlt
  · obtain ⟨j, rfl⟩ := Int.le.dest hle
    rw [← natCast_mul_ten_pow, mul_left_inj' (ten_zpow_pos e).ne', Nat.cast_inj] at h
    rw [← h]
    exact Nat.le_mul_of_pos_right n (Nat.pow_pos (by decide))
  · -- then the smaller power of ten would leave a zero at the end
    obtain ⟨j, rfl⟩ := Int.le.dest (Int.add_one_le_of_lt hlt)
    rw [add_assoc, ← Nat.cast_one, ← Nat.cast_add, Nat.add_comm, ← natCast_mul_ten_pow,
      mul_left_inj' (ten_zpow_pos e').ne', Nat.cast_inj, Nat.pow_succ, ← Nat.mul_assoc] at h
    exact absurd (by rw [h, Nat.mul_mod_left]) hn

theorem length_significantDigits_le_iff :
    d.significantDigits.length ≤ k ↔ ∃ (c : Nat) (e : ℤ), c < 10 ^ k ∧ d.value = c * 10 ^ e := by
  by_cases hd : d.coefficient = 0
  · rw [significantDigits_of_zero hd]
    refine iff_of_true (Nat.zero_le k) ⟨0, 0, Nat.pow_pos (by decide), ?_⟩
    rw [value, hd, Nat.cast_zero, zero_mul, zero_mul]
  · obtain ⟨n, e, hn, hdigits, hvalue, -⟩ := exists_significand hd
    rw [hdigits, hvalue]
    constructor
    · intro hk
      exact ⟨n, e, (lt_pow_digitCount n).trans_le (Nat.pow_le_pow_right (by decide) hk), rfl⟩
    · rintro ⟨c, e', hc, heq⟩
      have hlt : n < 10 ^ k := (le_of_mul_zpow_eq hn heq).trans_lt hc
      have hk : 0 < k := by
        refine Nat.pos_of_ne_zero fun hzero ↦ hn ?_
        rw [hzero, Nat.pow_zero, Nat.lt_one_iff] at hlt
        rw [hlt]
      exact (digitCount_le_iff hk).mpr hlt

end Decimal
end Reckoner
