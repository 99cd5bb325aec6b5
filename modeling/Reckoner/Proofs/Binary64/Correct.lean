import Reckoner.Proofs.Binary64.Representable
import Reckoner.Proofs.Nearest

/-!
# Rounding is correct

The place that `round` finds is that of the nearest whole multiple of the spacing around
the exact value.  Multiples of a finer spacing are all below the binade, so the least
number of the binade is nearer than they are, and the result is the nearest of all finite
numbers.  Only a value past the middle between the last place and the one after it leaves
the range.
-/

namespace Reckoner
namespace Binary64

/-! ## The grid around a quotient -/

variable {n d : Nat} {m : Magnitude}

/-- A number is on the grid of spacing `2 ^ e`, or it lies below the binade with that spacing,
and then a point of the grid is nearer to every value from this binade on. -/
theorem Representable.exists_grid {r x : ℚ} {e : ℤ} (hr : Representable r)
    (hx : -1074 < e → 2 ^ 52 * 2 ^ e ≤ x) :
    ∃ z : ℤ, r = z * 2 ^ e ∨ |z * 2 ^ e - x| < |r - x| := by
  obtain ⟨q, e', hq, hlow, -, rfl⟩ := hr
  by_cases hle : e ≤ e'
  · obtain ⟨k, hk⟩ := Int.eq_ofNat_of_zero_le (sub_nonneg.mpr hle)
    obtain rfl : e' = k + e := by omega
    refine ⟨q * 2 ^ k, .inl ?_⟩
    rw [zpow_add₀ two_ne_zero, zpow_natCast]
    push_cast
    ring
  · refine ⟨2 ^ 52, .inr ?_⟩
    have hbinade := hx (by omega)
    have hsignificand : (q : ℚ) < 2 ^ 53 := mod_cast (le_abs_self q).trans_lt hq
    have hlt : (q : ℚ) * 2 ^ e' < 2 ^ 52 * 2 ^ e := by
      calc (q : ℚ) * 2 ^ e' < 2 ^ 53 * 2 ^ e' :=
          mul_lt_mul_of_pos_right hsignificand (zpow_pos two_pos e')
        _ = 2 ^ 52 * 2 ^ (e' + 1) := by
          rw [zpow_add₀ two_ne_zero]
          ring
        _ ≤ 2 ^ 52 * 2 ^ e := by
          refine mul_le_mul_of_nonneg_left ?_ (by positivity)
          exact zpow_le_zpow_right₀ one_le_two (by omega)
    rw [Int.cast_pow, Int.cast_ofNat, abs_of_nonpos (sub_nonpos.mpr hbinade),
      abs_of_nonpos (sub_nonpos.mpr (hlt.le.trans hbinade))]
    linarith

theorem lt_mul_spacing (n : Nat) (hd : 0 < d) :
    n < 2 * binade * (d * twoTo (spacing n d)) := by
  have hlog : n / d < 2 ^ ((n / d).log2 + 1) := Nat.lt_log2_self
  have hpow : 2 ^ ((n / d).log2 + 1) ≤ 2 ^ (53 + spacing n d) := by
    refine Nat.pow_le_pow_right (by decide) ?_
    rw [spacing]
    omega
  have hlt : n / d < 2 * binade * twoTo (spacing n d) := by
    refine (hlog.trans_le hpow).trans_eq ?_
    rw [Nat.pow_add]
    rfl
  have hmul : n < 2 * binade * twoTo (spacing n d) * d := (Nat.div_lt_iff_lt_mul hd).mp hlt
  rwa [Nat.mul_assoc, Nat.mul_comm _ d] at hmul

theorem spacing_eq_zero_or_mul_le (n : Nat) (hd : 0 < d) :
    spacing n d = 0 ∨ binade * (d * twoTo (spacing n d)) ≤ n := by
  by_cases hlog : (n / d).log2 ≤ 52
  · exact .inl (Nat.sub_eq_zero_of_le hlog)
  right
  have hne : n / d ≠ 0 := by
    intro hzero
    rw [hzero] at hlog
    exact hlog (by decide)
  have hle : binade * twoTo (spacing n d) ≤ n / d := by
    refine Nat.le_trans (Nat.le_of_eq ?_) (Nat.log2_self_le hne)
    rw [binade, ← twoTo_add, spacing, Nat.add_sub_cancel' (by omega), twoTo_eq_pow]
  rw [Nat.mul_left_comm, Nat.mul_comm]
  exact (Nat.le_div_iff_mul_le hd).mp hle

/-- The significand that a quotient is rounded to, on the grid of its binade. -/
theorem nearest_spacing_bounds (n : Nat) (hd : 0 < d) :
    (spacing n d = 0 ∨ binade ≤ nearest n (d * twoTo (spacing n d))) ∧
      nearest n (d * twoTo (spacing n d)) ≤ 2 * binade := by
  have hpos : 0 < d * twoTo (spacing n d) := Nat.mul_pos hd (twoTo_pos _)
  exact ⟨(spacing_eq_zero_or_mul_le n hd).imp_right (le_nearest hpos),
    nearest_le hpos (Nat.le_of_lt (lt_mul_spacing n hd))⟩

namespace Magnitude

theorem index_of_ofUnits? (h : ofUnits? n d = some m) : m.index = placeOf n d := by
  rw [ofUnits?] at h
  split at h
  · rw [← Option.some.inj h]
  · cases h

theorem value_of_ofUnits? (hd : 0 < d) (h : ofUnits? n d = some m) :
    m.value = nearest n (d * twoTo (spacing n d)) * 2 ^ ((spacing n d : ℤ) - 1074) := by
  obtain ⟨hlow, hhigh⟩ := nearest_spacing_bounds n hd
  have hunits := units_eq_of_index_eq (index_of_ofUnits? h) hlow hhigh
  rw [value, hunits, Nat.cast_mul, mul_div_assoc, twoTo_cast_div_unitsPerOne]

theorem even_significand_of_ofUnits? (h : ofUnits? n d = some m)
    (heven : Even (nearest n (d * twoTo (spacing n d)))) : Even m.significand := by
  rw [even_significand_iff, index_of_ofUnits? h, placeOf]
  exact (even_binade.mul_left _).add heven

end Magnitude

/-- Distances from a quotient, in steps of the grid of its binade. -/
theorem abs_mul_step_sub (n d : Nat) (z : ℚ) :
    |z * 2 ^ ((spacing n d : ℤ) - 1074) - n / d / unitsPerOne| =
      |z - n / (d * twoTo (spacing n d) : Nat)| * 2 ^ ((spacing n d : ℤ) - 1074) := by
  have hne : (twoTo (spacing n d) : ℚ) ≠ 0 := Nat.cast_ne_zero.mpr (twoTo_pos _).ne'
  have hsteps : (n / d / unitsPerOne : ℚ) =
      n / (d * twoTo (spacing n d) : Nat) * 2 ^ ((spacing n d : ℤ) - 1074) := by
    rw [← twoTo_cast_div_unitsPerOne, Nat.cast_mul, ← mul_div_assoc, ← div_div,
      div_mul_cancel₀ _ hne]
  rw [hsteps, ← sub_mul, abs_mul, abs_of_pos (zpow_pos (two_pos : (0 : ℚ) < 2) _)]

theorem binade_mul_step_le (n : Nat) (hd : 0 < d) (hstep : -1074 < (spacing n d : ℤ) - 1074) :
    (2 ^ 52 * 2 ^ ((spacing n d : ℤ) - 1074) : ℚ) ≤ n / d / unitsPerOne := by
  have hle := (spacing_eq_zero_or_mul_le n hd).resolve_left (by omega)
  rw [← twoTo_cast_div_unitsPerOne, ← mul_div_assoc]
  refine div_le_div_of_nonneg_right ?_ (Nat.cast_nonneg _)
  rw [le_div_iff₀ (Nat.cast_pos.mpr hd), mul_assoc, mul_comm _ (d : ℚ)]
  exact_mod_cast hle

/-- What does not overflow is rounded to the nearest. -/
theorem Magnitude.isNearest_of_ofUnits? (hd : 0 < d) (h : ofUnits? n d = some m) :
    m.IsNearest (n / d / unitsPerOne) := by
  have hgrid : 0 < d * twoTo (spacing n d) := Nat.mul_pos hd (twoTo_pos _)
  have hstep : (0 : ℚ) < 2 ^ ((spacing n d : ℤ) - 1074) := zpow_pos two_pos _
  have hvalue := value_of_ofUnits? hd h
  have hmultiple : ∀ z : ℤ,
      |m.value - n / d / unitsPerOne| ≤
        |(z : ℚ) * 2 ^ ((spacing n d : ℤ) - 1074) - n / d / unitsPerOne| := by
    intro z
    rw [hvalue, abs_mul_step_sub, abs_mul_step_sub]
    exact mul_le_mul_of_nonneg_right (abs_nearest_sub_le n hgrid z) hstep.le
  constructor
  · intro r hr
    obtain ⟨z, rfl | hlt⟩ := hr.exists_grid (binade_mul_step_le n hd)
    · exact hmultiple z
    · exact (hmultiple z).trans hlt.le
  · intro r hr hne htie
    obtain ⟨z, rfl | hlt⟩ := hr.exists_grid (binade_mul_step_le n hd)
    · rw [hvalue, abs_mul_step_sub, abs_mul_step_sub] at htie
      refine even_significand_of_ofUnits? h (even_nearest_of_abs_eq hgrid ?_
        (mul_right_cancel₀ hstep.ne' htie))
      rintro rfl
      exact hne (by rw [hvalue, Int.cast_natCast])
    · exact absurd (htie ▸ hmultiple z) (not_le_of_gt hlt)

/-! ## Overflow -/

/-- The last place is passed from halfway between the greatest magnitude and the power of two
that would be next. -/
theorem magnitudeCount_le_placeOf_iff (n : Nat) (hd : 0 < d) :
    magnitudeCount ≤ placeOf n d ↔ 4 * binade * (d * twoTo 2044) ≤ n + d * twoTo 2044 := by
  obtain ⟨hnormal, hhigh⟩ := nearest_spacing_bounds n hd
  have hbinade := binade_pos
  have htwice : twoTo 2045 = 2 * twoTo 2044 := twoTo_succ 2044
  rw [magnitudeCount, placeOf]
  rcases lt_trichotomy (spacing n d) 2045 with hlt | heq | hgt
  · -- even a significand that carries stays in range
    have hmul : spacing n d * binade ≤ 2044 * binade :=
      Nat.mul_le_mul_right binade (Nat.le_of_lt_succ hlt)
    refine iff_of_false (by omega) ?_
    have hfine : d * twoTo (spacing n d) ≤ d * twoTo 2044 :=
      Nat.mul_le_mul_left d (twoTo_le_twoTo (Nat.le_of_lt_succ hlt))
    have hsmall : n < 2 * (binade * (d * twoTo 2044)) := by
      rw [← Nat.mul_assoc]
      exact (lt_mul_spacing n hd).trans_le (Nat.mul_le_mul_left _ hfine)
    have hlarge : d * twoTo 2044 ≤ binade * (d * twoTo 2044) := Nat.le_mul_of_pos_left _ hbinade
    rw [Nat.mul_assoc]
    omega
  · -- only a carry leaves the last binade
    have hcarry := le_nearest_iff_of_even (n := n) (Nat.mul_pos hd (twoTo_pos 2045))
      (Nat.mul_mod_right 2 binade)
    have hscale : 2 * (2 * binade * (d * twoTo 2045)) = 2 * (4 * binade * (d * twoTo 2044)) := by
      rw [htwice]
      ring
    have hhalf : d * twoTo 2045 = 2 * (d * twoTo 2044) := by
      rw [htwice, Nat.mul_left_comm]
    rw [hscale, hhalf, ← Nat.mul_add, Nat.mul_le_mul_left_iff two_pos, ← hhalf] at hcarry
    rw [heq, ← hcarry]
    omega
  · have hmul : 2046 * binade ≤ spacing n d * binade := Nat.mul_le_mul_right binade hgt
    have hleading := hnormal.resolve_left (by omega)
    refine iff_of_true (by omega) ?_
    have hfour : 4 * twoTo 2044 ≤ twoTo (spacing n d) := by
      have htwice' : twoTo 2046 = 2 * twoTo 2045 := twoTo_succ 2045
      have hpow : twoTo 2046 ≤ twoTo (spacing n d) := twoTo_le_twoTo hgt
      omega
    calc 4 * binade * (d * twoTo 2044) = binade * (d * (4 * twoTo 2044)) := by ring
      _ ≤ binade * (d * twoTo (spacing n d)) :=
        Nat.mul_le_mul_left _ (Nat.mul_le_mul_left _ hfour)
      _ ≤ n := (spacing_eq_zero_or_mul_le n hd).resolve_left (by omega)
      _ ≤ n + d * twoTo 2044 := Nat.le_add_right _ _

theorem overflow_eq :
    (2 ^ 1024 - 2 ^ 970 : ℚ) = (4 * binade - 1) * (twoTo 2044 / unitsPerOne) := by
  have hexponent : ((2044 : Nat) : ℤ) - 1074 = (970 : Nat) := by decide
  have hleading : (4 * binade : ℚ) = 2 ^ 54 := by
    rw [binade, twoTo_eq_pow]
    norm_num
  rw [twoTo_cast_div_unitsPerOne, hexponent, zpow_natCast, hleading, sub_mul, one_mul, ← pow_add]

theorem Magnitude.ofUnits?_eq_none_iff (n : Nat) (hd : 0 < d) :
    ofUnits? n d = none ↔ (2 ^ 1024 - 2 ^ 970 : ℚ) ≤ n / d / unitsPerOne := by
  have hunit : (0 : ℚ) < unitsPerOne := Nat.cast_pos.mpr unitsPerOne_pos
  have hpos : (0 : ℚ) < d := Nat.cast_pos.mpr hd
  have hpast : ofUnits? n d = none ↔ magnitudeCount ≤ placeOf n d := by
    rw [ofUnits?]
    split
    · next hlt => exact iff_of_false (Option.some_ne_none _) (Nat.not_le_of_lt hlt)
    · next hle => exact iff_of_true rfl (Nat.le_of_not_lt hle)
  rw [hpast, magnitudeCount_le_placeOf_iff n hd, overflow_eq, ← mul_div_assoc,
    div_le_div_iff_of_pos_right hunit, le_div_iff₀ hpos, ← @Nat.cast_le ℚ]
  push_cast
  constructor <;> intro h <;> linarith

/-- Whatever the exact value, the result is the one that is correctly rounded. -/
theorem round_roundsTo (s : Bool) (n : Nat) (hd : 0 < d) :
    RoundsTo s (n / d / unitsPerOne) (round s n d) := by
  rw [round_eq_match]
  dsimp only
  cases h : Magnitude.ofUnits? n d with
  | none => exact .infinity ((Magnitude.ofUnits?_eq_none_iff n hd).mp h)
  | some m =>
      refine .finite m ?_ (Magnitude.isNearest_of_ofUnits? hd h)
      rw [← not_le, ← Magnitude.ofUnits?_eq_none_iff n hd, h]
      exact Option.some_ne_none m

theorem ofNat_roundsTo (n : Nat) : RoundsTo false n (ofNat n) := by
  have hunit : (unitsPerOne : ℚ) ≠ 0 := Nat.cast_ne_zero.mpr unitsPerOne_pos.ne'
  have hround := round_roundsTo false (n * unitsPerOne) Nat.one_pos
  rwa [Nat.cast_one, div_one, Nat.cast_mul, mul_div_cancel_right₀ _ hunit] at hround

theorem RoundsTo.eq_infinity_iff {s : Bool} {x : ℚ} {v : Binary64} (h : RoundsTo s x v) :
    v = Binary64.infinity s ↔ 2 ^ 1024 - 2 ^ 970 ≤ x := by
  cases h with
  | finite m hrange => exact iff_of_false nofun (not_le_of_gt hrange)
  | infinity hrange => exact iff_of_true rfl hrange

theorem ofNat_eq_infinity_iff (n : Nat) :
    ofNat n = infinity false ↔ 2 ^ 1024 - 2 ^ 970 ≤ n := by
  have hle : 2 ^ 970 ≤ 2 ^ 1024 := pow_le_pow_right₀ one_le_two (by decide : 970 ≤ 1024)
  rw [(ofNat_roundsTo n).eq_infinity_iff, ← @Nat.cast_le ℚ, Nat.cast_sub hle, Nat.cast_pow,
    Nat.cast_pow, Nat.cast_ofNat]

end Binary64
end Reckoner
