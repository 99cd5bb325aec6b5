import Reckoner.Proofs.Decimal.Grid
import Reckoner.Proofs.Decimal.Significant

/-!
# The shortest decimal

The decimal that is chosen for a magnitude rounds to it and has the fewest digits that do.
Any other decimal with so few digits that rounds to the magnitude is on the far side of one
of the two candidates, which then rounds to the magnitude as well, since nothing between
two such values rounds to anything else.
-/

namespace Reckoner
namespace Decimal

open Binary64

variable {s : Bool} {m : Magnitude} {d d' : Decimal} {count c n q : Nat} {e : ℤ}

/-- `x` and `y` are neighbours among the multiples of a power of ten, and `x` is the even
one. -/
def IsEvenNeighbor (x y : ℚ) : Prop :=
  ∃ (c : Nat) (e : ℤ), Even c ∧ x = c * 10 ^ e ∧ (y = (c + 1) * 10 ^ e ∨ y = (c - 1) * 10 ^ e)

/-- `d` is the decimal with which `m` is shown: it rounds to `m` and has the fewest
significant digits that do, it is the nearest to `m` of those, and of two that are equally
near it is the even one. -/
structure IsShortest (s : Bool) (m : Magnitude) (d : Decimal) : Prop where
  roundsTo : RoundsTo s d.value (finite s m)
  length_le : ∀ d' : Decimal, RoundsTo s d'.value (finite s m) →
    d.significantDigits.length ≤ d'.significantDigits.length
  abs_sub_le : ∀ d' : Decimal, RoundsTo s d'.value (finite s m) →
    d'.significantDigits.length = d.significantDigits.length →
    |d.value - m.value| ≤ |d'.value - m.value|
  even_of_tie : ∀ d' : Decimal, RoundsTo s d'.value (finite s m) →
    d'.significantDigits.length = d.significantDigits.length →
    |d'.value - m.value| = |d.value - m.value| → d'.value ≠ d.value →
    IsEvenNeighbor d.value d'.value

/-! ## There is one -/

theorem IsEvenNeighbor.asymm {x y : ℚ} (h : IsEvenNeighbor x y) : ¬IsEvenNeighbor y x := by
  rintro ⟨k, e', hk, rfl, hx⟩
  obtain ⟨c, e, hc, rfl, hy⟩ := h
  -- they are a step apart, so it is the same grid
  have hstep : (10 : ℚ) ^ e = 10 ^ e' := by
    have hpos := ten_zpow_pos e
    have hpos' := ten_zpow_pos e'
    rcases hx with hx | hx <;> rcases hy with hy | hy <;> linarith
  rw [hstep, mul_left_inj' (ten_zpow_pos e').ne', mul_left_inj' (ten_zpow_pos e').ne'] at hx
  rcases hx with hx | hx
  · have hnext : c = k + 1 := mod_cast hx
    exact Nat.even_add_one.mp (hnext ▸ hc) hk
  · have hnext : c + 1 = k := mod_cast eq_sub_iff_add_eq.mp hx
    exact Nat.even_add_one.mp (hnext ▸ hk) hc

theorem IsShortest.value_eq (h : IsShortest s m d) (h' : IsShortest s m d') :
    d.value = d'.value := by
  have hlength : d'.significantDigits.length = d.significantDigits.length :=
    Nat.le_antisymm (h'.length_le d h.roundsTo) (h.length_le d' h'.roundsTo)
  have hdist : |d'.value - m.value| = |d.value - m.value| :=
    le_antisymm (h'.abs_sub_le d h.roundsTo hlength.symm) (h.abs_sub_le d' h'.roundsTo hlength)
  by_contra hne
  exact (h.even_of_tie d' h'.roundsTo hlength hdist (Ne.symm hne)).asymm
    (h'.even_of_tie d h.roundsTo hlength.symm hdist.symm hne)

/-! ## The two candidates -/

theorem significant_or_across (count n q : Nat) :
    (significant count n q = ⟨wholeSteps count n q, stepFor count n q⟩ ∧
        significantAcross count n q = ⟨wholeSteps count n q + 1, stepFor count n q⟩) ∨
      (significant count n q = ⟨wholeSteps count n q + 1, stepFor count n q⟩ ∧
        significantAcross count n q = ⟨wholeSteps count n q, stepFor count n q⟩) := by
  rw [significant, significantAcross, wholeSteps]
  dsimp only
  by_cases hdown : nearest (scaled n q (stepFor count n q)).1 (scaled n q (stepFor count n q)).2 =
      (scaled n q (stepFor count n q)).1 / (scaled n q (stepFor count n q)).2
  · rw [if_pos hdown, hdown]
    exact .inl ⟨rfl, rfl⟩
  · rw [if_neg hdown]
    rw [nearest] at hdown ⊢
    split at hdown
    · exact absurd rfl hdown
    · next hup =>
        rw [if_neg hup]
        exact .inr ⟨rfl, rfl⟩

theorem significantAcross_eq_of_ne
    (hc : c = wholeSteps count n q ∨ c = wholeSteps count n q + 1)
    (hne : significant count n q ≠ ⟨c, stepFor count n q⟩) :
    significantAcross count n q = ⟨c, stepFor count n q⟩ := by
  rcases significant_or_across count n q with ⟨hnear, hacross⟩ | ⟨hnear, hacross⟩ <;>
    rcases hc with rfl | rfl
  · exact absurd hnear hne
  · exact hacross
  · exact hacross
  · exact absurd hnear hne

/-- Distances are the same when counted in steps. -/
theorem abs_mul_stepFor_sub (count n q : Nat) (z : ℚ) :
    |z * 10 ^ stepFor count n q - n / q| =
      |z - (scaled n q (stepFor count n q)).1 / (scaled n q (stepFor count n q)).2| *
        10 ^ stepFor count n q := by
  have hpos := ten_zpow_pos (stepFor count n q)
  rw [scaled_div, ← abs_of_pos hpos, ← abs_mul, abs_of_pos hpos, sub_mul,
    div_mul_cancel₀ _ hpos.ne']

theorem abs_significant_sub_le (count n : Nat) (hq : 0 < q) (z : ℤ) :
    |(significant count n q).value - n / q| ≤ |(z : ℚ) * 10 ^ stepFor count n q - n / q| := by
  rw [value, significant]
  dsimp only
  rw [abs_mul_stepFor_sub, abs_mul_stepFor_sub]
  exact mul_le_mul_of_nonneg_right (abs_nearest_sub_le _ (scaled_snd_pos n hq _) z)
    (ten_zpow_pos _).le

theorem even_significant_of_tie (hq : 0 < q) {z : ℤ}
    (hz : z ≠ (significant count n q).coefficient)
    (htie : |(z : ℚ) * 10 ^ stepFor count n q - n / q| = |(significant count n q).value - n / q|) :
    Even (significant count n q).coefficient := by
  rw [value, significant] at htie
  dsimp only at htie
  rw [abs_mul_stepFor_sub, abs_mul_stepFor_sub, mul_left_inj' (ten_zpow_pos _).ne'] at htie
  exact even_nearest_of_abs_eq (scaled_snd_pos n hq _) hz htie

/-- Halfway between the two candidates the even one is preferred. -/
theorem isEvenNeighbor_significant (hq : 0 < q)
    (hc : c = wholeSteps count n q ∨ c = wholeSteps count n q + 1)
    (htie : |(c : ℚ) * 10 ^ stepFor count n q - n / q| = |(significant count n q).value - n / q|)
    (hne : (c : ℚ) * 10 ^ stepFor count n q ≠ (significant count n q).value) :
    IsEvenNeighbor (significant count n q).value (c * 10 ^ stepFor count n q) := by
  have hstep : (significant count n q).value =
      (significant count n q).coefficient * 10 ^ stepFor count n q := rfl
  have hother : (c : ℤ) ≠ (significant count n q).coefficient := by
    intro hsame
    rw [Nat.cast_inj.mp hsame] at hne
    exact hne hstep.symm
  refine ⟨_, _, even_significant_of_tie hq hother htie, hstep, ?_⟩
  rcases significant_or_across count n q with ⟨hnear, -⟩ | ⟨hnear, -⟩ <;> rw [hnear] at hother ⊢ <;>
    rcases hc with rfl | rfl
  · exact absurd rfl hother
  · exact .inl (by rw [Nat.cast_add_one])
  · exact .inr (by rw [Nat.cast_add_one, add_sub_cancel_right])
  · exact absurd rfl hother

/-! ## What is chosen for one count of digits -/

theorem shortestOf?_eq_some (h : shortestOf? m count = some d) :
    (d = significant count m.units unitsPerOne ∨ d = significantAcross count m.units unitsPerOne) ∧
      d.magnitude? = some m := by
  rw [shortestOf?] at h
  split at h
  · next hnear => exact Option.some.inj h ▸ ⟨.inl rfl, hnear⟩
  · split at h
    · next hacross => exact Option.some.inj h ▸ ⟨.inr rfl, hacross⟩
    · cases h

theorem roundsTo_of_shortestOf? (s : Bool) (h : shortestOf? m count = some d) :
    RoundsTo s d.value (finite s m) :=
  (magnitude?_eq_some_iff s).mp (shortestOf?_eq_some h).2

/-- A carry into one more digit leaves only zeros after the first. -/
theorem length_significantDigits_le_of_le (hcount : 0 < count) (hc : c ≤ 10 ^ count) (e : ℤ) :
    (⟨c, e⟩ : Decimal).significantDigits.length ≤ count := by
  rw [length_significantDigits_le_iff]
  rcases hc.eq_or_lt with rfl | hlt
  · refine ⟨1, e + count, Nat.one_lt_pow hcount.ne' (by decide), ?_⟩
    rw [value, ten_zpow_add_natCast, Nat.cast_one, one_mul]
  · exact ⟨c, e, hlt, rfl⟩

theorem length_le_of_shortestOf? (hm : m.isZero = false) (hcount : 0 < count)
    (h : shortestOf? m count = some d) : d.significantDigits.length ≤ count := by
  have hlt := wholeSteps_lt_pow hcount (Magnitude.units_pos hm) unitsPerOne_pos
  have hthis := length_significantDigits_le_of_le hcount hlt.le (stepFor count m.units unitsPerOne)
  have hnext := length_significantDigits_le_of_le hcount hlt (stepFor count m.units unitsPerOne)
  rcases significant_or_across count m.units unitsPerOne with ⟨hnear, hacross⟩ | ⟨hnear, hacross⟩
  · rcases (shortestOf?_eq_some h).1 with rfl | rfl
    · rwa [hnear]
    · rwa [hacross]
  · rcases (shortestOf?_eq_some h).1 with rfl | rfl
    · rwa [hnear]
    · rwa [hacross]

/-- One of the candidates is between the decimal and the magnitude. -/
theorem exists_candidate (hm : m.isZero = false) (hcount : 0 < count) (hc : c < 10 ^ count)
    (h : RoundsTo s (c * 10 ^ e) (finite s m)) :
    ∃ k : Nat, (k = wholeSteps count m.units unitsPerOne ∨
        k = wholeSteps count m.units unitsPerOne + 1) ∧
      RoundsTo s (k * 10 ^ stepFor count m.units unitsPerOne) (finite s m) ∧
      |k * 10 ^ stepFor count m.units unitsPerOne - m.value| ≤ |c * 10 ^ e - m.value| ∧
      (|c * 10 ^ e - m.value| = |k * 10 ^ stepFor count m.units unitsPerOne - m.value| →
        (c * 10 ^ e : ℚ) = k * 10 ^ stepFor count m.units unitsPerOne) := by
  have hbetween := exists_wholeSteps_between hcount (Magnitude.units_pos hm) unitsPerOne_pos hc e
  rw [← Magnitude.value] at hbetween
  rcases hbetween with ⟨hfar, hnear⟩ | ⟨hnear, hfar⟩
  · have hnonneg : (0 : ℚ) ≤ c * 10 ^ e := mul_nonneg (Nat.cast_nonneg _) (ten_zpow_pos e).le
    exact ⟨_, .inl rfl, h.between (m.roundsTo_value s) hnonneg hfar hnear,
      abs_sub_le_of_between (.inl ⟨hfar, hnear⟩)⟩
  · exact ⟨_, .inr rfl, (m.roundsTo_value s).between h m.value_nonneg hnear hfar,
      abs_sub_le_of_between (.inr ⟨hnear, hfar⟩)⟩

/-- Where some decimal with so few digits rounds to the magnitude, one is chosen, and none
is nearer. -/
theorem exists_shortestOf?_eq_some (hm : m.isZero = false) (hcount : 0 < count)
    (hc : c < 10 ^ count) (h : RoundsTo s (c * 10 ^ e) (finite s m)) :
    ∃ d, shortestOf? m count = some d ∧ |d.value - m.value| ≤ |c * 10 ^ e - m.value| ∧
      (|c * 10 ^ e - m.value| = |d.value - m.value| → (c * 10 ^ e : ℚ) ≠ d.value →
        IsEvenNeighbor d.value (c * 10 ^ e)) := by
  obtain ⟨k, hk, hround, hle, htie⟩ := exists_candidate hm hcount hc h
  have hnearest := abs_significant_sub_le count m.units unitsPerOne_pos k
  rw [← Magnitude.value, Int.cast_natCast] at hnearest
  by_cases hnear : (significant count m.units unitsPerOne).magnitude? = some m
  · -- the nearest decimal of all with so many digits rounds to the magnitude
    refine ⟨_, by rw [shortestOf?, if_pos hnear], hnearest.trans hle, fun hsame hne ↦ ?_⟩
    have hcandidate := htie (le_antisymm (hsame.trans_le hnearest) hle)
    rw [hcandidate, Magnitude.value] at hsame
    rw [hcandidate] at hne ⊢
    exact isEvenNeighbor_significant unitsPerOne_pos hk hsame hne
  · -- then the candidate that does is the other one
    have hacross := significantAcross_eq_of_ne hk fun hthis ↦
      hnear ((magnitude?_eq_some_iff s).mpr (hthis ▸ hround))
    have hvalue : (significantAcross count m.units unitsPerOne).value =
        k * 10 ^ stepFor count m.units unitsPerOne := by
      rw [hacross, value]
    refine ⟨significantAcross count m.units unitsPerOne, ?_, ?_, ?_⟩
    · rw [shortestOf?, if_neg hnear, if_pos]
      rwa [magnitude?_eq_some_iff s, hvalue]
    · rwa [hvalue]
    · rw [hvalue]
      exact fun hsame hne ↦ absurd (htie hsame) hne

/-! ## The least count -/

theorem value_mul_five_pow (n k : Nat) (he : e = -k) :
    value ⟨n * Nat.pow 5 k, e⟩ = n / twoTo k := by
  have hten : (10 : ℚ) ^ k = 2 ^ k * 5 ^ k := by
    rw [← mul_pow]
    norm_num
  have hfive : (5 : ℚ) ^ k ≠ 0 := pow_ne_zero k (by norm_num)
  rw [value, he, zpow_neg, zpow_natCast, ← div_eq_mul_inv, hten, twoTo_eq_pow, Nat.pow_eq]
  push_cast
  rw [mul_div_mul_right _ _ hfive]

/-- The exact expansion denotes the magnitude. -/
theorem value_exact (m : Magnitude) : (exact m).value = m.value := by
  rw [exact, Magnitude.value, unitsPerOne]
  generalize hk : 1074 = k
  exact value_mul_five_pow m.units k (by rw [← hk, Nat.cast_ofNat])

/-- The decimal is chosen for the first count for which there is one. -/
theorem exists_count (hm : m.isZero = false) :
    ∃ count, 0 < count ∧ shortestOf? m count = some (shortest m) ∧
      ∀ k, 0 < k → k < count → shortestOf? m k = none := by
  -- the exact expansion shows that the counts suffice
  have hexact : RoundsTo false (exact m).value (finite false m) := by
    rw [value_exact]
    exact m.roundsTo_value false
  obtain ⟨d, hd, -⟩ :=
    exists_shortestOf?_eq_some hm (digitCount_pos _) (lt_pow_digitCount _) hexact
  have hsome : ((List.range' 1 (digitCount (exact m).coefficient)).findSome?
      (shortestOf? m)).isSome = true := by
    refine List.findSome?_isSome_iff.mpr ⟨digitCount (exact m).coefficient, ?_, ?_⟩
    · exact List.mem_range'_1.mpr ⟨digitCount_pos _, Nat.lt_add_of_pos_left Nat.one_pos⟩
    · rw [hd, Option.isSome_some]
  obtain ⟨d', hd'⟩ := Option.isSome_iff_exists.mp hsome
  obtain ⟨before, count, after, hsplit, hcount, hnone⟩ := List.findSome?_eq_some_iff.mp hd'
  obtain ⟨k, hk, rfl, hrest⟩ := List.range'_eq_append_iff.mp hsplit
  obtain ⟨rfl, -, -⟩ := List.range'_eq_cons_iff.mp hrest.symm
  refine ⟨1 + k * 1, Nat.lt_add_right _ Nat.one_pos, ?_, fun j hpos hlt ↦ hnone j ?_⟩
  · rwa [shortest, hd', Option.getD_some]
  · exact List.mem_range'_1.mpr ⟨hpos, by omega⟩

/-- A decimal that rounds to a magnitude above zero has digits. -/
theorem length_pos_of_roundsTo (hm : m.isZero = false) (h : RoundsTo s d.value (finite s m)) :
    0 < d.significantDigits.length := by
  by_contra hlength
  obtain ⟨c, e, hc, hvalue⟩ := length_significantDigits_le_iff.mp (Nat.le_of_not_lt hlength)
  rw [Nat.pow_zero, Nat.lt_one_iff] at hc
  rw [hvalue, hc, Nat.cast_zero, zero_mul, ← Magnitude.value_zero] at h
  cases h.unique (Magnitude.zero.roundsTo_value s)
  cases hm

theorem shortest_isShortest (s : Bool) (hm : m.isZero = false) : IsShortest s m (shortest m) := by
  obtain ⟨count, hpos, hchosen, hnone⟩ := exists_count hm
  have hround := roundsTo_of_shortestOf? s hchosen
  -- with fewer digits than `count` nothing would have been left unchosen
  have hfewest : ∀ d : Decimal, RoundsTo s d.value (finite s m) →
      count ≤ d.significantDigits.length := by
    intro d hd
    obtain ⟨c, e, hc, hvalue⟩ :=
      length_significantDigits_le_iff.mp d.significantDigits.length.le_refl
    have hlength := length_pos_of_roundsTo hm hd
    rw [hvalue] at hd
    obtain ⟨_, hsome, -⟩ := exists_shortestOf?_eq_some hm hlength hc hd
    refine Nat.le_of_not_lt fun hlt ↦ ?_
    rw [hnone _ hlength hlt] at hsome
    cases hsome
  have hcount : (shortest m).significantDigits.length = count :=
    Nat.le_antisymm (length_le_of_shortestOf? hm hpos hchosen) (hfewest _ hround)
  -- among those with `count` digits
  have hnearest : ∀ d : Decimal, RoundsTo s d.value (finite s m) →
      d.significantDigits.length = (shortest m).significantDigits.length →
      |(shortest m).value - m.value| ≤ |d.value - m.value| ∧
        (|d.value - m.value| = |(shortest m).value - m.value| → d.value ≠ (shortest m).value →
          IsEvenNeighbor (shortest m).value d.value) := by
    intro d hd hlength
    obtain ⟨c, e, hc, hvalue⟩ := length_significantDigits_le_iff.mp (hlength.trans hcount).le
    rw [hvalue] at hd ⊢
    obtain ⟨d', hd', hnear⟩ := exists_shortestOf?_eq_some hm hpos hc hd
    rw [hchosen] at hd'
    rwa [← Option.some.inj hd'] at hnear
  exact {
    roundsTo := hround
    length_le := fun d hd ↦ hcount.trans_le (hfewest d hd)
    abs_sub_le := fun d hd hlength ↦ (hnearest d hd hlength).1
    even_of_tie := fun d hd hlength ↦ (hnearest d hd hlength).2 }

end Decimal
end Reckoner
