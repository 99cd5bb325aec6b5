import Reckoner.Binary64.Arithmetic
import Reckoner.Decimal.Numeral
import Reckoner.Proofs.Binary64.Places

/-!
# Whole numbers among the binary64 numbers

Every whole number up to `2 ^ 53` in size is a binary64 number, so sums, differences and
products of whole numbers are exact as long as they stay within that bound.  A whole
number is shown as its decimal numeral, whatever the sign of a zero.
-/

namespace Reckoner
namespace Binary64

theorem Magnitude.exists_units_eq {k : Nat} (hk : k ≤ 2 ^ 53) :
    ∃ m : Magnitude, m.units = k * unitsPerOne := by
  have hfull : 2 ^ 53 = 2 * binade := rfl
  rcases Nat.lt_or_eq_of_le hk with hlt | rfl
  · exact exists_units_eq_mul (by decide) (hfull ▸ hlt)
  · -- the bound itself has one bit more, which goes to the exponent
    have hpos := binade_pos
    obtain ⟨m, hm⟩ := exists_units_eq_mul (e := 1075) (q := binade) (by decide) (by omega)
    refine ⟨m, ?_⟩
    rw [hm, hfull, unitsPerOne, twoTo_succ]
    ring

/-! ## Values -/

variable {x y : Binary64} {a b z : Int} {s t : Bool} {m : Magnitude} {k : Nat}

/-- `k` with a sign. -/
def signed (negative : Bool) (k : Nat) : Int :=
  if negative then -k else k

theorem signed_eq_self (z : Int) : signed (decide (z < 0)) z.natAbs = z := by
  rw [signed]
  split
  · next h =>
      have hneg := of_decide_eq_true h
      omega
  · next h =>
      have hnonneg : ¬z < 0 := fun hneg ↦ h (decide_eq_true hneg)
      omega

theorem signed_mul_signed (s t : Bool) (k l : Nat) :
    signed s k * signed t l = signed (s != t) (k * l) := by
  cases s <;> cases t <;> simp [signed]

theorem signedUnits_eq (s : Bool) (h : m.units = k * unitsPerOne) :
    signedUnits s m = signed s k * unitsPerOne := by
  rw [signedUnits, signed, h]
  generalize unitsPerOne = unit
  cases s <;> simp

theorem whole?_finite (s : Bool) (h : m.units = k * unitsPerOne) :
    (finite s m).whole? = some (signed s k) := by
  have hmod : m.units % unitsPerOne = 0 := by rw [h, Nat.mul_mod_left]
  have hne : (unitsPerOne : Int) ≠ 0 := Int.natCast_ne_zero.mpr (Nat.ne_of_gt unitsPerOne_pos)
  rw [whole?, if_pos hmod, signedUnits_eq s h, Int.mul_ediv_cancel _ hne]

theorem whole?_eq_some_iff :
    x.whole? = some z ↔
      ∃ s m k, x = finite s m ∧ m.units = k * unitsPerOne ∧ z = signed s k := by
  constructor
  · intro h
    match x with
    | nan => cases h
    | infinity s => cases h
    | finite s m =>
        by_cases hmod : m.units % unitsPerOne = 0
        · obtain ⟨k, hk⟩ := Nat.dvd_of_mod_eq_zero hmod
          rw [Nat.mul_comm] at hk
          rw [whole?_finite s hk] at h
          exact ⟨s, m, k, rfl, hk, (Option.some.inj h).symm⟩
        · rw [whole?, if_neg hmod] at h
          cases h
  · rintro ⟨s, m, k, rfl, hk, rfl⟩
    exact whole?_finite s hk

/-! ## Operations -/

theorem whole?_round (s : Bool) (hk : k ≤ 2 ^ 53) :
    (round s (k * unitsPerOne) 1).whole? = some (signed s k) := by
  obtain ⟨m, hm⟩ := Magnitude.exists_units_eq hk
  rw [← hm, round_units, whole?_finite s hm]

theorem whole?_ofNat (hk : k ≤ 2 ^ 53) : (ofNat k).whole? = some k :=
  whole?_round false hk

theorem whole?_ofInt (hz : z.natAbs ≤ 2 ^ 53) : (ofInt z).whole? = some z := by
  rw [ofInt, whole?_round _ hz, signed_eq_self]

theorem whole?_neg (hx : x.whole? = some a) : x.neg.whole? = some (-a) := by
  obtain ⟨s, m, k, rfl, hm, rfl⟩ := whole?_eq_some_iff.mp hx
  rw [neg, whole?_finite _ hm]
  cases s <;> simp [signed]

theorem whole?_add (hx : x.whole? = some a) (hy : y.whole? = some b)
    (hsum : (a + b).natAbs ≤ 2 ^ 53) : (x.add y).whole? = some (a + b) := by
  obtain ⟨s, m, k, rfl, hm, rfl⟩ := whole?_eq_some_iff.mp hx
  obtain ⟨t, n, l, rfl, hn, rfl⟩ := whole?_eq_some_iff.mp hy
  have hunits : signedUnits s m + signedUnits t n = (signed s k + signed t l) * unitsPerOne := by
    rw [signedUnits_eq s hm, signedUnits_eq t hn, Int.add_mul]
  generalize signed s k + signed t l = c at hsum hunits ⊢
  have hpos : (0 : Int) < unitsPerOne := Int.natCast_pos.mpr unitsPerOne_pos
  simp only [add, hunits]
  by_cases hc : c = 0
  · subst hc
    have hzero : signed (s && t) 0 = 0 := by cases s && t <;> rfl
    have hunits : Magnitude.zero.units = 0 * unitsPerOne :=
      Magnitude.units_zero.trans (Nat.zero_mul _).symm
    rw [Int.zero_mul, if_pos rfl, whole?_finite _ hunits, hzero]
  · have hne : c * unitsPerOne ≠ 0 := Int.mul_ne_zero hc (Int.ne_of_gt hpos)
    have hsign := Int.mul_lt_mul_right (b := c) (c := 0) hpos
    rw [Int.zero_mul] at hsign
    have habs : (c * unitsPerOne).natAbs = c.natAbs * unitsPerOne := by
      rw [Int.natAbs_mul, Int.natAbs_natCast]
    rw [if_neg hne, habs]
    simp only [hsign]
    exact whole?_ofInt hsum

theorem whole?_sub (hx : x.whole? = some a) (hy : y.whole? = some b)
    (hdiff : (a - b).natAbs ≤ 2 ^ 53) : (x.sub y).whole? = some (a - b) :=
  whole?_add hx (whole?_neg hy) hdiff

theorem whole?_mul (hx : x.whole? = some a) (hy : y.whole? = some b)
    (hproduct : (a * b).natAbs ≤ 2 ^ 53) : (x.mul y).whole? = some (a * b) := by
  obtain ⟨s, m, k, rfl, hm, rfl⟩ := whole?_eq_some_iff.mp hx
  obtain ⟨t, n, l, rfl, hn, rfl⟩ := whole?_eq_some_iff.mp hy
  rw [signed_mul_signed] at hproduct ⊢
  have hkl : k * l ≤ 2 ^ 53 := by
    rw [signed] at hproduct
    split at hproduct <;> omega
  -- the units of one factor cancel against the divisor
  have hunits : m.units * n.units = k * l * unitsPerOne * unitsPerOne := by
    rw [hm, hn]
    ring
  have hscaled := round_mul_mul_right (s != t) (k * l * unitsPerOne) 1 unitsPerOne_pos
  rw [Nat.one_mul] at hscaled
  rw [mul, hunits, hscaled, whole?_round _ hkl]

/-! ## Numerals -/

theorem ofList_wholeText (z : Int) : String.ofList (wholeText z) = z.repr := by
  cases z with
  | ofNat n => rfl
  | negSucc n =>
      have hsign : decide (Int.negSucc n < 0) = true := decide_eq_true (Int.negSucc_lt_zero n)
      rw [wholeText, hsign, Int.natAbs_negSucc, String.ofList_append]
      rfl

theorem resultText_eq_repr (h : x.whole? = some z) : x.resultText = z.repr := by
  rw [resultText, h]
  exact ofList_wholeText z

end Binary64
end Reckoner
