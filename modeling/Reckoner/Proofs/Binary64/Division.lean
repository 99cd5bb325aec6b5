import Reckoner.Proofs.Binary64.Correct
import Reckoner.Proofs.Outcome.Faults

/-!
# Division is that of IEEE 754

The rule for zero divisors stands beside the division of finite numbers, which is rounded
once, and the two agree on the sign: it is that of the product, zeros and infinities
included.  What the result has to be is said here for all pairs of numbers at once, and it
leaves no choice.
-/

namespace Reckoner
namespace Binary64

def isInfinite : Binary64 → Bool
  | infinity _ => true
  | _ => false

/-- `q` is the quotient of `a` by `b`. -/
structure IsQuotient (a b q : Binary64) : Prop where
  eq_nan_iff : q = nan ↔
    a = nan ∨ b = nan ∨ (a.isZero = true ∧ b.isZero = true) ∨
      (a.isInfinite = true ∧ b.isInfinite = true)
  isNegative_eq : q ≠ nan → q.isNegative = (a.isNegative != b.isNegative)
  roundsTo : ∀ s m t n, a = finite s m → b = finite t n → n.isZero = false →
    RoundsTo (s != t) (m.value / n.value) q
  isInfinite_of : q ≠ nan → a.isInfinite = true ∨ b.isZero = true → q.isInfinite = true
  isZero_of : q ≠ nan → b.isInfinite = true → q.isZero = true

variable {s t : Bool} {m n : Magnitude} {a b q w : Binary64} {x : ℚ}

/-! ## The division of finite numbers -/

theorem RoundsTo.ne_nan (h : RoundsTo s x q) : q ≠ nan := by
  cases h <;> nofun

theorem RoundsTo.isNegative_eq (h : RoundsTo s x q) : q.isNegative = s := by
  cases h <;> rfl

theorem div_finite (s t : Bool) (m : Magnitude) (hn : n.isZero = false) :
    (finite s m).div (finite t n) = round (s != t) (m.units * unitsPerOne) n.units := by
  simp only [div, hn, Bool.false_eq_true, if_false]

theorem div_zero (s t : Bool) (hn : n.isZero = true) :
    (finite s m).div (finite t n) = if m.isZero then nan else infinity (s != t) := by
  simp only [div, hn, if_true]

theorem div_roundsTo (s t : Bool) (m : Magnitude) (hn : n.isZero = false) :
    RoundsTo (s != t) (m.value / n.value) ((finite s m).div (finite t n)) := by
  have hunit : (unitsPerOne : ℚ) ≠ 0 := Nat.cast_ne_zero.mpr unitsPerOne_pos.ne'
  have hround := round_roundsTo (s != t) (m.units * unitsPerOne) (Magnitude.units_pos hn)
  have hvalue : (m.units * unitsPerOne : Nat) / n.units / unitsPerOne = m.value / n.value := by
    rw [Magnitude.value, Magnitude.value, div_div_div_cancel_right₀ hunit, Nat.cast_mul,
      div_right_comm, mul_div_cancel_right₀ _ hunit]
  rwa [hvalue, ← div_finite s t m hn] at hround

/-! ## All pairs of numbers -/

theorem isQuotient_nan
    (h : a = nan ∨ b = nan ∨ (a.isZero = true ∧ b.isZero = true) ∨
      (a.isInfinite = true ∧ b.isInfinite = true)) : IsQuotient a b nan where
  eq_nan_iff := iff_of_true rfl h
  isNegative_eq := fun hne ↦ absurd rfl hne
  roundsTo := by
    rintro s m t n rfl rfl hn
    rcases h with h | h | ⟨-, h⟩ | ⟨h, -⟩
    · cases h
    · cases h
    · exact absurd (hn.symm.trans h) Bool.false_ne_true
    · cases h
  isInfinite_of := fun hne ↦ absurd rfl hne
  isZero_of := fun hne ↦ absurd rfl hne

theorem isQuotient_infinity_finite (s t : Bool) (n : Magnitude) :
    IsQuotient (infinity s) (finite t n) (infinity (s != t)) where
  eq_nan_iff := by simp [isZero, isInfinite]
  isNegative_eq := fun _ ↦ rfl
  roundsTo := fun _ _ _ _ h ↦ by cases h
  isInfinite_of := fun _ _ ↦ rfl
  isZero_of := fun _ h ↦ by cases h

theorem isQuotient_finite_infinity (s t : Bool) (m : Magnitude) :
    IsQuotient (finite s m) (infinity t) (finite (s != t) .zero) where
  eq_nan_iff := by simp [isZero, isInfinite]
  isNegative_eq := fun _ ↦ rfl
  roundsTo := fun _ _ _ _ _ h ↦ by cases h
  isInfinite_of := fun _ h ↦ by simp [isInfinite, isZero] at h
  isZero_of := fun _ _ ↦ rfl

theorem isQuotient_of_roundsTo (hn : n.isZero = false)
    (h : RoundsTo (s != t) (m.value / n.value) q) : IsQuotient (finite s m) (finite t n) q where
  eq_nan_iff := by simp [h.ne_nan, isZero, isInfinite, hn]
  isNegative_eq := fun _ ↦ h.isNegative_eq
  roundsTo := by
    rintro _ _ _ _ ⟨rfl, rfl⟩ ⟨rfl, rfl⟩ -
    exact h
  isInfinite_of := fun _ h ↦ by simp [isInfinite, isZero, hn] at h
  isZero_of := fun _ h ↦ by cases h

theorem isQuotient_zero_divisor (hm : m.isZero = false) (hn : n.isZero = true) :
    IsQuotient (finite s m) (finite t n) (infinity (s != t)) where
  eq_nan_iff := by simp [isZero, isInfinite, hm]
  isNegative_eq := fun _ ↦ rfl
  roundsTo := by
    rintro _ _ _ _ - ⟨rfl, rfl⟩ hne
    exact absurd (hne.symm.trans hn) Bool.false_ne_true
  isInfinite_of := fun _ _ ↦ rfl
  isZero_of := fun _ h ↦ by cases h

theorem div_isQuotient (a b : Binary64) : IsQuotient a b (a.div b) := by
  match a, b with
  | nan, _ => exact isQuotient_nan (.inl rfl)
  | infinity _, nan | finite _ _, nan => exact isQuotient_nan (.inr (.inl rfl))
  | infinity _, infinity _ => exact isQuotient_nan (.inr (.inr (.inr ⟨rfl, rfl⟩)))
  | infinity s, finite t n => exact isQuotient_infinity_finite s t n
  | finite s m, infinity t => exact isQuotient_finite_infinity s t m
  | finite s m, finite t n =>
      cases hn : n.isZero with
      | false => exact isQuotient_of_roundsTo hn (div_roundsTo s t m hn)
      | true =>
          rw [div_zero s t hn]
          cases hm : m.isZero with
          | true => exact isQuotient_nan (.inr (.inr (.inl ⟨hm, hn⟩)))
          | false => exact isQuotient_zero_divisor hm hn

theorem eq_infinity_of_isInfinite (h : q.isInfinite = true) : q = infinity q.isNegative := by
  cases q with
  | infinity s => rfl
  | _ => cases h

theorem eq_zero_of_isZero (h : q.isZero = true) : q = finite q.isNegative .zero := by
  cases q with
  | finite s m => rw [Magnitude.eq_zero_of_isZero h]; rfl
  | _ => cases h

/-- No other result is the quotient. -/
theorem IsQuotient.unique (hq : IsQuotient a b q) (hw : IsQuotient a b w) : q = w := by
  by_cases hnan : q = nan
  · rw [hnan, hw.eq_nan_iff.mpr (hq.eq_nan_iff.mp hnan)]
  have hne : w ≠ nan := fun h ↦ hnan (hq.eq_nan_iff.mpr (hw.eq_nan_iff.mp h))
  have hsign : q.isNegative = w.isNegative :=
    (hq.isNegative_eq hnan).trans (hw.isNegative_eq hne).symm
  by_cases hinfinite : a.isInfinite = true ∨ b.isZero = true
  · rw [eq_infinity_of_isInfinite (hq.isInfinite_of hnan hinfinite),
      eq_infinity_of_isInfinite (hw.isInfinite_of hne hinfinite), hsign]
  by_cases hzero : b.isInfinite = true
  · rw [eq_zero_of_isZero (hq.isZero_of hnan hzero), eq_zero_of_isZero (hw.isZero_of hne hzero),
      hsign]
  match a, b with
  | nan, _ => exact absurd (hq.eq_nan_iff.mpr (.inl rfl)) hnan
  | _, nan => exact absurd (hq.eq_nan_iff.mpr (.inr (.inl rfl))) hnan
  | infinity _, finite _ _ => exact absurd (.inl rfl) hinfinite
  | _, infinity _ => exact absurd rfl hzero
  | finite s m, finite t n =>
      have hn : n.isZero = false := Bool.eq_false_of_not_eq_true fun h ↦ hinfinite (.inr h)
      exact (hq.roundsTo s m t n rfl rfl hn).unique (hw.roundsTo s m t n rfl rfl hn)

/-- Division raises nothing for any pair of numbers and gives the quotient of IEEE 754:
`nan` where there is none, and otherwise a number with the sign of the product, infinite
where the dividend is infinite or the divisor zero, zero where the divisor is infinite, and
correctly rounded everywhere else. -/
theorem divide_eq_ok_iff_isQuotient (a b : Binary64) :
    (∃ q, Raising.divide a b = .ok q) ∧ ∀ q, Raising.divide a b = .ok q ↔ IsQuotient a b q := by
  rw [Raising.divide_eq]
  refine ⟨⟨_, rfl⟩, fun q ↦ ⟨fun h ↦ ?_, fun h ↦ ?_⟩⟩
  · rw [← Except.ok.inj h]
    exact div_isQuotient a b
  · rw [(div_isQuotient a b).unique h]

end Binary64
end Reckoner
