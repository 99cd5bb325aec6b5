import Reckoner.Binary64.Rounding
import Mathlib.Data.Nat.Log
import Mathlib.Tactic.Ring

/-!
# Places and what they denote

The place of a magnitude is its exponent, counted in binades, plus its significand, the
leading bit included; so a significand that fills two binades denotes the first place of
the next one.  Rounding an exact value that some magnitude has gives the place of that
magnitude, and it depends on the quotient alone, not on how the quotient is written.
-/

namespace Reckoner

theorem twoTo_eq_pow (k : Nat) : twoTo k = 2 ^ k := rfl

theorem twoTo_succ (k : Nat) : twoTo (k + 1) = 2 * twoTo k := by
  rw [Nat.add_comm, twoTo_add]
  rfl

theorem twoTo_le_twoTo {j k : Nat} (h : j ≤ k) : twoTo j ≤ twoTo k :=
  Nat.pow_le_pow_right (by decide) h

theorem nearest_mul_mul_right (n d : Nat) {k : Nat} (hk : 0 < k) :
    nearest (n * k) (d * k) = nearest n d := by
  have hless : 2 * (n % d * k) < d * k ↔ 2 * (n % d) < d := by
    rw [← Nat.mul_assoc, Nat.mul_lt_mul_right hk]
  have htie : 2 * (n % d * k) = d * k ↔ 2 * (n % d) = d := by
    rw [← Nat.mul_assoc, Nat.mul_left_inj (Nat.ne_of_gt hk)]
  simp only [nearest, Nat.mul_mod_mul_right, Nat.mul_div_mul_right _ _ hk, hless, htie]

namespace Binary64

theorem binade_pos : 0 < binade :=
  twoTo_pos 52

theorem unitsPerOne_pos : 0 < unitsPerOne :=
  twoTo_pos 1074

theorem placeOf_mul_mul_right (n d : Nat) {k : Nat} (hk : 0 < k) :
    placeOf (n * k) (d * k) = placeOf n d := by
  have hspacing : spacing (n * k) (d * k) = spacing n d := by
    rw [spacing, Nat.mul_div_mul_right _ _ hk, spacing]
  rw [placeOf, hspacing, Nat.mul_right_comm, nearest_mul_mul_right _ _ hk, placeOf]

namespace Magnitude

variable (m : Magnitude)

theorem index_eq : m.index = m.exponent * binade + m.significand := by
  have hparts : m.index / binade * binade + m.index % binade = m.index :=
    Nat.div_add_mod' m.index binade
  unfold exponent significand
  generalize m.index / binade = k at hparts ⊢
  cases k with
  | zero => simpa using hparts.symm
  | succ k =>
      rw [if_neg (Nat.succ_ne_zero k), Nat.add_sub_cancel]
      rw [Nat.succ_mul] at hparts
      omega

theorem significand_lt : m.significand < 2 * binade := by
  have hmod : m.index % binade < binade := Nat.mod_lt _ binade_pos
  unfold significand
  split <;> omega

theorem exponent_eq_zero_or_binade_le : m.exponent = 0 ∨ binade ≤ m.significand := by
  unfold exponent significand
  split
  · next h => exact .inl (by rw [h])
  · exact .inr (Nat.le_add_right _ _)

theorem units_eq_of_parts {m : Magnitude} {k f : Nat} (hindex : m.index = k * binade + f)
    (hf : f < binade) :
    m.units = (if k = 0 then f else binade + f) * twoTo (k - 1) := by
  have hdiv : m.index / binade = k := by
    rw [hindex, Nat.mul_comm, Nat.mul_add_div binade_pos, Nat.div_eq_of_lt hf, Nat.add_zero]
  have hmod : m.index % binade = f := by
    rw [hindex, Nat.mul_comm, Nat.mul_add_mod, Nat.mod_eq_of_lt hf]
  rw [units, significand, exponent, hdiv, hmod]

/-- Any place that is written as an exponent and a significand denotes their product, a
significand that fills two binades included. -/
theorem units_eq_of_index_eq {m : Magnitude} {e q : Nat} (hindex : m.index = e * binade + q)
    (hlow : e = 0 ∨ binade ≤ q) (hhigh : q ≤ 2 * binade) : m.units = q * twoTo e := by
  by_cases hfirst : q < binade
  · obtain rfl : e = 0 := hlow.resolve_right (Nat.not_le_of_lt hfirst)
    rw [units_eq_of_parts hindex hfirst, if_pos rfl]
  obtain ⟨f, rfl⟩ := Nat.exists_eq_add_of_le (Nat.le_of_not_lt hfirst)
  by_cases hcarry : f < binade
  · have hparts : m.index = (e + 1) * binade + f := by
      rw [hindex]
      ring
    rw [units_eq_of_parts hparts hcarry, if_neg (Nat.succ_ne_zero e), Nat.add_sub_cancel]
  · obtain rfl : f = binade := by omega
    have hparts : m.index = (e + 2) * binade + 0 := by
      rw [hindex]
      ring
    rw [units_eq_of_parts hparts binade_pos, if_neg (Nat.succ_ne_zero _), Nat.add_zero,
      ← Nat.two_mul, Nat.mul_comm 2, Nat.mul_assoc]
    exact congrArg (binade * ·) (twoTo_succ e)

/-- Every significand and every exponent in range denote some magnitude. -/
theorem exists_units_eq_mul {e : Nat} (he : e ≤ 2045) :
    ∀ {q : Nat}, q < 2 * binade → ∃ m : Magnitude, m.units = q * twoTo e := by
  induction e with
  | zero =>
      intro q hq
      have hlt : 0 * binade + q < magnitudeCount := by
        rw [magnitudeCount]
        omega
      exact ⟨⟨_, hlt⟩, units_eq_of_index_eq rfl (.inl rfl) (Nat.le_of_lt hq)⟩
  | succ e ih =>
      intro q hq
      by_cases hnormal : binade ≤ q
      · have hlt : (e + 1) * binade + q < magnitudeCount := by
          have hmul : (e + 1) * binade ≤ 2045 * binade := Nat.mul_le_mul_right binade he
          rw [magnitudeCount]
          omega
        exact ⟨⟨_, hlt⟩, units_eq_of_index_eq rfl (.inr hnormal) (Nat.le_of_lt hq)⟩
      · -- a significand without its leading bit is doubled, at the exponent before
        obtain ⟨m, hm⟩ := ih (Nat.le_of_succ_le he) (q := 2 * q) (by omega)
        refine ⟨m, ?_⟩
        rw [hm, twoTo_succ]
        ring

/-! ## Rounding what needs none -/

theorem spacing_units : spacing m.units 1 = m.exponent := by
  have hpos := binade_pos
  have hlt := m.significand_lt
  rw [spacing, Nat.div_one, units]
  rcases m.exponent_eq_zero_or_binade_le with hzero | hnormal
  · have hlog : m.significand.log2 < 53 := by
      by_cases hs : m.significand = 0
      · rw [hs]
        decide
      · exact (Nat.log2_lt hs).mpr (by rwa [show (2 : Nat) ^ 53 = 2 * binade from rfl])
    rw [hzero, twoTo_zero, Nat.mul_one]
    omega
  · have hlow : 2 ^ (52 + m.exponent) ≤ m.significand * twoTo m.exponent := by
      rw [Nat.pow_add]
      exact Nat.mul_le_mul_right _ hnormal
    have hhigh : m.significand * twoTo m.exponent < 2 ^ (52 + m.exponent + 1) := by
      rw [Nat.add_right_comm, Nat.pow_add]
      exact Nat.mul_lt_mul_of_pos_right hlt (twoTo_pos _)
    have hne : m.significand * twoTo m.exponent ≠ 0 :=
      Nat.ne_of_gt (Nat.lt_of_lt_of_le (Nat.two_pow_pos _) hlow)
    rw [(Nat.log2_eq_iff hne).mpr ⟨hlow, hhigh⟩, Nat.add_sub_cancel_left]

theorem placeOf_units : placeOf m.units 1 = m.index := by
  rw [placeOf, spacing_units, Nat.one_mul, units, nearest_mul_self _ _ (twoTo_pos _), index_eq]

theorem ofUnits?_units : ofUnits? m.units 1 = some m := by
  have hlt : placeOf m.units 1 < magnitudeCount := m.placeOf_units ▸ m.index_lt
  rw [ofUnits?, dif_pos hlt]
  simp only [placeOf_units]

theorem ofUnits?_mul_mul_right (n d : Nat) {k : Nat} (hk : 0 < k) :
    ofUnits? (n * k) (d * k) = ofUnits? n d := by
  simp only [ofUnits?, placeOf_mul_mul_right n d hk]

end Magnitude

/-- An equation of functions: at given arguments, checking it would count out a place. -/
theorem round_eq_match :
    round = fun s n d ↦
      match Magnitude.ofUnits? n d with
      | some m => finite s m
      | none => infinity s := by
  delta round
  rfl

theorem round_units (s : Bool) (m : Magnitude) : round s m.units 1 = finite s m := by
  rw [round_eq_match]
  simp only [m.ofUnits?_units]

theorem round_mul_mul_right (s : Bool) (n d : Nat) {k : Nat} (hk : 0 < k) :
    round s (n * k) (d * k) = round s n d := by
  rw [round_eq_match]
  simp only [Magnitude.ofUnits?_mul_mul_right n d hk]

end Binary64
end Reckoner
