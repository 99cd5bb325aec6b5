import Reckoner.Proofs.Binary64.Correct

/-!
# What rounds to one number

Rounding keeps the order, so what rounds to one number has no gaps: between two such
values there are no others.  Every value that is not negative is rounded to something, and
the exact value of a number is rounded to the number.
-/

namespace Reckoner
namespace Binary64

variable {s : Bool} {m m' : Magnitude} {x y z : ℚ} {v : Binary64} {n d : Nat}

/-! ## Every value is rounded -/

theorem exists_roundsTo (s : Bool) (hx : 0 ≤ x) : ∃ v, RoundsTo s x v := by
  have hunit : (unitsPerOne : ℚ) ≠ 0 := Nat.cast_ne_zero.mpr unitsPerOne_pos.ne'
  obtain ⟨k, hk⟩ := Int.eq_ofNat_of_zero_le (Rat.num_nonneg.mpr hx)
  have hround := round_roundsTo s (k * unitsPerOne) x.den_pos
  have hvalue : ((k * unitsPerOne : Nat) / x.den / unitsPerOne : ℚ) = x := by
    rw [Nat.cast_mul, div_right_comm, mul_div_cancel_right₀ _ hunit, ← Int.cast_natCast, ← hk,
      Rat.num_div_den]
  exact ⟨_, hvalue ▸ hround⟩

theorem Magnitude.roundsTo_value (s : Bool) (m : Magnitude) :
    RoundsTo s m.value (finite s m) := by
  have hround := round_roundsTo s m.units Nat.one_pos
  rwa [round_units, Nat.cast_one, div_one] at hround

theorem Magnitude.ofUnits?_eq_some_iff (s : Bool) (hd : 0 < d) :
    ofUnits? n d = some m ↔ RoundsTo s (n / d / unitsPerOne) (finite s m) := by
  have hround := round_roundsTo s n hd
  rw [round_eq_match] at hround
  dsimp only at hround
  constructor
  · intro h
    rwa [h] at hround
  · intro h
    cases hunits : ofUnits? n d with
    | none =>
        rw [hunits] at hround
        cases hround.unique h
    | some m' =>
        rw [hunits] at hround
        cases hround.unique h
        rfl

/-! ## Rounding keeps the order -/

namespace Magnitude

theorem eq_of_index_eq (h : m.index = m'.index) : m = m' := by
  cases m
  cases m'
  cases h
  rfl

/-- The smaller value is not rounded to the greater number. -/
theorem IsNearest.index_le_of_lt (h : m.IsNearest x) (h' : m'.IsNearest y) (hlt : x < y) :
    m.index ≤ m'.index := by
  by_contra hle
  have hvalue := value_lt_value (Nat.lt_of_not_le hle)
  -- the middle between the two numbers would separate the values the other way
  have hx : m'.value + m.value ≤ 2 * x := by
    have hdist := (le_abs_self _).trans (h.abs_sub_le _ m'.representable_value)
    rcases abs_choice (m'.value - x) with heq | heq <;> linarith
  have hy : 2 * y ≤ m'.value + m.value := by
    have hdist := (neg_le_abs _).trans (h'.abs_sub_le _ m.representable_value)
    rcases abs_choice (m.value - y) with heq | heq <;> linarith
  linarith

end Magnitude

/-- What lies between two values that round to `v` rounds to `v`. -/
theorem RoundsTo.between (hx : RoundsTo s x v) (hz : RoundsTo s z v) (hnonneg : 0 ≤ x)
    (hxy : x ≤ y) (hyz : y ≤ z) : RoundsTo s y v := by
  obtain ⟨w, hw⟩ := exists_roundsTo s (hnonneg.trans hxy)
  cases hx with
  | infinity hrange => exact .infinity (hrange.trans hxy)
  | finite m hrange hnearest =>
      cases hz with
      | finite _ hrange' hnearest' =>
          cases hw with
          | infinity hrange'' => exact absurd (hrange''.trans hyz) (not_le_of_gt hrange')
          | finite m' hrange'' hnearest'' =>
              refine .finite m hrange'' ?_
              have hindex : m.index = m'.index := by
                refine Nat.le_antisymm ?_ ?_
                · rcases hxy.eq_or_lt with rfl | hlt
                  · rw [hnearest.unique hnearest'']
                  · exact hnearest.index_le_of_lt hnearest'' hlt
                · rcases hyz.eq_or_lt with rfl | hlt
                  · rw [hnearest'.unique hnearest'']
                  · exact hnearest''.index_le_of_lt hnearest' hlt
              exact Magnitude.eq_of_index_eq hindex ▸ hnearest''

end Binary64
end Reckoner
