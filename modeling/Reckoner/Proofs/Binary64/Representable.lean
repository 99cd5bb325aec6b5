import Mathlib.Algebra.Order.Field.Power
import Mathlib.Algebra.Order.Field.Rat
import Mathlib.Tactic.Linarith
import Mathlib.Tactic.Ring
import Reckoner.Proofs.Binary64.Places

/-!
# The finite numbers and the nearest of them

The finite binary64 numbers are the products of a significand of 53 bits and a power of
two from `2 ^ -1074` to `2 ^ 971`.  A value that is rounded goes to the nearest of them, of
two that are equally near to the one with the even significand; from
`2 ^ 1024 - 2 ^ 970` on, halfway between the greatest finite number and the next power of
two, it goes to an infinity.  This says which result is correct without saying how it is
found, and it leaves no choice.
-/

namespace Reckoner
namespace Binary64

/-- The exact values of the finite numbers, of either sign. -/
def Representable (r : ℚ) : Prop :=
  ∃ q e : ℤ, |q| < 2 ^ 53 ∧ -1074 ≤ e ∧ e ≤ 971 ∧ r = q * 2 ^ e

namespace Magnitude

/-- The exact value. -/
def value (m : Magnitude) : ℚ :=
  m.units / unitsPerOne

/-- `m` is what a value `x` is rounded to when it is in range: the nearest magnitude, and of
two that are equally near the one whose significand is even. -/
structure IsNearest (m : Magnitude) (x : ℚ) : Prop where
  abs_sub_le : ∀ r, Representable r → |m.value - x| ≤ |r - x|
  even_of_tie : ∀ r, Representable r → r ≠ m.value → |r - x| = |m.value - x| →
    Even m.significand

end Magnitude

/-- The correctly rounded result for a value of size `x` with the given sign. -/
inductive RoundsTo (negative : Bool) (x : ℚ) : Binary64 → Prop where
  | finite (m : Magnitude) (hrange : x < 2 ^ 1024 - 2 ^ 970) (hnearest : m.IsNearest x) :
      RoundsTo negative x (finite negative m)
  | infinity (hrange : 2 ^ 1024 - 2 ^ 970 ≤ x) : RoundsTo negative x (infinity negative)

/-! ## Values -/

theorem twoTo_cast_div_unitsPerOne (k : Nat) :
    (twoTo k : ℚ) / unitsPerOne = 2 ^ ((k : ℤ) - 1074) := by
  rw [zpow_sub₀ two_ne_zero, unitsPerOne, twoTo_eq_pow, twoTo_eq_pow, Nat.cast_pow, Nat.cast_pow,
    zpow_natCast]
  rfl

namespace Magnitude

variable (m : Magnitude)

theorem exponent_le : m.exponent ≤ 2045 := by
  have hlt : m.exponent * binade < 2046 * binade := by
    have hindex := m.index_lt
    rcases m.exponent_eq_zero_or_binade_le with hzero | hnormal
    · rw [hzero, Nat.zero_mul]
      exact Nat.mul_pos (by decide) binade_pos
    · rw [m.index_eq, magnitudeCount] at hindex
      omega
  exact Nat.le_of_lt_succ (Nat.lt_of_mul_lt_mul_right hlt)

theorem value_eq : m.value = m.significand * 2 ^ ((m.exponent : ℤ) - 1074) := by
  rw [value, units, Nat.cast_mul, mul_div_assoc, twoTo_cast_div_unitsPerOne]

theorem representable_value : Representable m.value := by
  have hexponent := m.exponent_le
  have hsignificand := m.significand_lt
  refine ⟨m.significand, (m.exponent : ℤ) - 1074, ?_, by omega, by omega, ?_⟩
  · rw [Nat.abs_cast]
    exact mod_cast hsignificand
  · rw [value_eq, Int.cast_natCast]

end Magnitude

/-! ## Order -/

theorem even_binade : Even binade :=
  ⟨twoTo 51, (twoTo_succ 51).trans (Nat.two_mul _)⟩

namespace Magnitude

variable {m m' : Magnitude} {x : ℚ}

theorem units_lt_units (h : m.index < m'.index) : m.units < m'.units := by
  have hexponent : m.exponent ≤ m'.exponent :=
    Nat.sub_le_sub_right (Nat.div_le_div_right (Nat.le_of_lt h)) 1
  have hindex := h
  rw [m.index_eq, m'.index_eq] at hindex
  rw [units, units]
  rcases Nat.eq_or_lt_of_le hexponent with heq | hlt
  · rw [heq] at hindex ⊢
    exact Nat.mul_lt_mul_of_pos_right (Nat.lt_of_add_lt_add_left hindex) (twoTo_pos _)
  · have hleading := m'.exponent_eq_zero_or_binade_le.resolve_left (by omega)
    calc m.significand * twoTo m.exponent < 2 * binade * twoTo m.exponent :=
        Nat.mul_lt_mul_of_pos_right m.significand_lt (twoTo_pos _)
      _ = binade * twoTo (m.exponent + 1) := by
        rw [twoTo_succ]
        ring
      _ ≤ m'.significand * twoTo m'.exponent :=
        Nat.mul_le_mul hleading (twoTo_le_twoTo hlt)

theorem value_lt_value (h : m.index < m'.index) : m.value < m'.value := by
  rw [value, value, div_lt_div_iff_of_pos_right (Nat.cast_pos.mpr unitsPerOne_pos)]
  exact mod_cast units_lt_units h

theorem value_nonneg (m : Magnitude) : 0 ≤ m.value :=
  div_nonneg (Nat.cast_nonneg _) (Nat.cast_nonneg _)

theorem value_zero : zero.value = 0 := by
  rw [value, units_zero, Nat.cast_zero, zero_div]

theorem units_pos (h : m.isZero = false) : 0 < m.units := by
  have hindex : 0 < m.index := Nat.pos_of_ne_zero (by simpa [isZero] using h)
  rw [← units_zero]
  exact units_lt_units hindex

theorem eq_zero_of_isZero (h : m.isZero = true) : m = zero := by
  cases m with
  | mk index index_lt =>
      obtain rfl : index = 0 := by simpa [isZero] using h
      rfl

theorem even_significand_iff : Even m.significand ↔ Even m.index := by
  have hhigh : Even (m.exponent * binade) := even_binade.mul_left _
  rw [m.index_eq, Nat.even_add]
  exact ⟨fun h ↦ iff_of_true hhigh h, fun h ↦ h.mp hhigh⟩

/-! ## Only one result is correct -/

theorem IsNearest.index_le (h : m.IsNearest x) (h' : m'.IsNearest x) : m'.index ≤ m.index := by
  by_contra hle
  have hlt : m.index < m'.index := Nat.lt_of_not_le hle
  have hvalue := value_lt_value hlt
  have hdist : |m.value - x| = |m'.value - x| :=
    le_antisymm (h.abs_sub_le _ m'.representable_value) (h'.abs_sub_le _ m.representable_value)
  rcases Nat.eq_or_lt_of_le (Nat.succ_le_of_lt hlt) with hneighbour | hapart
  · have heven := h.even_of_tie _ m'.representable_value hvalue.ne' hdist.symm
    have heven' := h'.even_of_tie _ m.representable_value hvalue.ne hdist
    rw [even_significand_iff, Nat.even_iff] at heven heven'
    omega
  · -- what is between the two is nearer to their middle
    let between : Magnitude := ⟨m.index + 1, Nat.lt_trans hapart m'.index_lt⟩
    have habove : m.value < between.value := value_lt_value (Nat.lt_succ_self m.index)
    have hbelow : between.value < m'.value := value_lt_value hapart
    have hmiddle : x - m.value = m'.value - x := by
      rcases abs_eq_abs.mp hdist with hsame | hopposite <;> linarith
    have hnear := h.abs_sub_le _ between.representable_value
    rw [abs_sub_comm, abs_of_pos (by linarith : 0 < x - m.value)] at hnear
    rcases le_abs.mp hnear with hright | hleft <;> linarith

theorem IsNearest.unique (h : m.IsNearest x) (h' : m'.IsNearest x) : m = m' := by
  have hindex := Nat.le_antisymm (h'.index_le h) (h.index_le h')
  cases m
  cases m'
  cases hindex
  rfl

end Magnitude

theorem RoundsTo.unique {s : Bool} {x : ℚ} {v w : Binary64} (hv : RoundsTo s x v)
    (hw : RoundsTo s x w) : v = w := by
  cases hv with
  | finite m hrange hnearest =>
      cases hw with
      | finite m' _ hnearest' => rw [hnearest.unique hnearest']
      | infinity hrange' => exact absurd hrange (not_lt_of_ge hrange')
  | infinity hrange =>
      cases hw with
      | finite m' hrange' _ => exact absurd hrange' (not_lt_of_ge hrange)
      | infinity _ => rfl

end Binary64
end Reckoner
