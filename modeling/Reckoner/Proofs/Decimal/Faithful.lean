import Reckoner.Proofs.Binary64.Whole
import Reckoner.Proofs.Decimal.Shortest
import Reckoner.Proofs.Decimal.Written

/-!
# Results are printed faithfully

A result is printed as a whole number in full or with the fewest digits that tell it from
all other numbers.  Either way reading the text and rounding gives a number equal to it, so
different numbers are printed differently.
-/

namespace Reckoner
namespace Binary64

open Decimal

/-- Equal as numbers: only the two zeros are equal without being the same. -/
inductive NumericallyEqual : Binary64 → Binary64 → Prop
  | infinity (s : Bool) : NumericallyEqual (infinity s) (infinity s)
  | finite {s t : Bool} {m n : Magnitude} (h : signedUnits s m = signedUnits t n) :
      NumericallyEqual (finite s m) (finite t n)

/-- What `text` says is the number `x`, correctly rounded. -/
inductive IsReading : List Char → Binary64 → Prop
  | infinity (s : Bool) : IsReading (signText s ++ "inf".toList) (infinity s)
  | numeral (s : Bool) {tail body : List Char} {d : Decimal} {x : Binary64}
      (hnumeral : IsNumeral tail body d) (hround : RoundsTo s d.value x) :
      IsReading (signText s ++ body) x

/-- A sign where it is needed, and digits without a leading zero. -/
def IsWholeNumeral (text : List Char) (z : ℤ) : Prop :=
  ∃ digits, text = signText (decide (z < 0)) ++ digits ∧ digits ≠ [] ∧
    (∀ c ∈ digits, c.isDigit = true) ∧ Nat.ofDigitChars 10 digits 0 = z.natAbs ∧
    (digits.head? = some '0' → digits = ['0'] ∧ z = 0)

/-- The layout of the shortest decimal, of which there is one.  It denotes this decimal and
is no whole numeral: it has a point or else an exponent, and the latter outside the
positional range. -/
def IsShortestNumeral (s : Bool) (m : Magnitude) (text : List Char) : Prop :=
  ∃ d, IsShortest s m d ∧ (∀ d', IsShortest s m d' → d'.value = d.value) ∧
    text = signText s ++ shortestLayout.text d ∧
    (∃ tail d', IsNumeral tail (shortestLayout.text d) d' ∧ d'.value = d.value) ∧
    ('.' ∈ text ∨ 'e' ∈ text) ∧
    ('e' ∈ text ↔ d.value < 10 ^ (-4 : ℤ) ∨ 10 ^ (16 : ℤ) ≤ d.value)

variable {s : Bool} {m : Magnitude} {x y w : Binary64} {z : ℤ} {tail body : List Char}
  {d : Decimal}

namespace NumericallyEqual

theorem symm (h : NumericallyEqual x y) : NumericallyEqual y x := by
  cases h with
  | infinity s => exact .infinity s
  | finite h => exact .finite h.symm

theorem trans (hxy : NumericallyEqual x y) (hyw : NumericallyEqual y w) :
    NumericallyEqual x w := by
  cases hxy with
  | infinity s => exact hyw
  | finite h =>
      cases hyw with
      | finite h' => exact .finite (h.trans h')

end NumericallyEqual

/-! ## Whole numbers -/

theorem units_eq_of_signedUnits (h : signedUnits s m = z * unitsPerOne) :
    m.units = z.natAbs * unitsPerOne := by
  have habs : (signedUnits s m).natAbs = m.units := by
    rw [signedUnits]
    split
    · rw [Int.natAbs_neg, Int.natAbs_natCast]
    · exact Int.natAbs_natCast _
  rw [← habs, h, Int.natAbs_mul, Int.natAbs_natCast]

theorem value_of_whole (h : signedUnits s m = z * unitsPerOne) :
    m.value = Decimal.value ⟨z.natAbs, 0⟩ := by
  have hunit : (unitsPerOne : ℚ) ≠ 0 := Nat.cast_ne_zero.mpr unitsPerOne_pos.ne'
  rw [Magnitude.value, units_eq_of_signedUnits h, Nat.cast_mul, mul_div_cancel_right₀ _ hunit,
    Decimal.value, zpow_zero, mul_one]

theorem whole?_finite_eq_some_iff :
    (finite s m).whole? = some z ↔ signedUnits s m = z * unitsPerOne := by
  constructor
  · intro h
    obtain ⟨_, _, k, hfinite, hk, rfl⟩ := whole?_eq_some_iff.mp h
    cases hfinite
    exact signedUnits_eq s hk
  · intro h
    have hunits := units_eq_of_signedUnits h
    have hne : (unitsPerOne : ℤ) ≠ 0 := Int.natCast_ne_zero.mpr unitsPerOne_pos.ne'
    have hsigned := Int.eq_of_mul_eq_mul_right hne ((signedUnits_eq s hunits).symm.trans h)
    rw [whole?_finite s hunits, hsigned]

theorem isWholeNumeral_wholeText (z : ℤ) : IsWholeNumeral (wholeText z) z := by
  refine ⟨Nat.toDigits 10 z.natAbs, rfl, Nat.toDigits_ne_nil, isDigit_of_mem_toDigits _,
    Nat.ofDigitChars_ten_toDigits, fun hzero ↦ ?_⟩
  obtain rfl : z = 0 := by
    by_contra hne
    exact head?_toDigits_ne_zero (Int.natAbs_ne_zero.mpr hne) hzero
  exact ⟨rfl, rfl⟩

/-! ## The shortest numeral -/

theorem coefficient_shortest_ne_zero (hm : m.isZero = false) : (shortest m).coefficient ≠ 0 := by
  intro hzero
  have hlength := length_pos_of_roundsTo hm (shortest_isShortest false hm).roundsTo
  rw [significantDigits_of_zero hzero] at hlength
  exact Nat.lt_irrefl 0 hlength

theorem isShortestNumeral_layOut (s : Bool) (hm : m.isZero = false) :
    IsShortestNumeral s m (signText s ++ shortestLayout.text (shortest m)) := by
  have hcoefficient := coefficient_shortest_ne_zero hm
  obtain ⟨tail, d, hnumeral, hvalue, htail⟩ :=
    isNumeral_text (l := shortestLayout) (.inr rfl) hcoefficient
  have hshortest := shortest_isShortest s hm
  refine ⟨shortest m, hshortest, fun d' h' ↦ h'.value_eq hshortest, rfl, ⟨tail, d, hnumeral, hvalue⟩, ?_, ?_⟩
  · rw [List.mem_append, List.mem_append]
    exact (point_or_e_mem_text List.mem_cons_self _).imp .inr .inr
  · have hsign : 'e' ∉ signText s := by cases s <;> decide
    rw [List.mem_append, or_iff_right hsign, hnumeral.e_mem_iff, htail, not_and_or, not_lt,
      le_firstExponent_iff hcoefficient, le_firstExponent_iff hcoefficient, not_le]
    rfl

/-! ## Reading back -/

theorem read?_of_roundsTo (hnumeral : IsNumeral tail body d) (hround : RoundsTo s d.value x) :
    read? (signText s ++ body) = some x := by
  rw [read?_signText s hnumeral, (ofDecimal_roundsTo s d).unique hround]

theorem resultText_infinity (s : Bool) :
    (infinity s).resultText.toList = signText s ++ "inf".toList :=
  String.toList_ofList

theorem resultText_of_whole (h : signedUnits s m = z * unitsPerOne) :
    (finite s m).resultText.toList = wholeText z := by
  rw [resultText, whole?_finite_eq_some_iff.mpr h, String.toList_ofList]

theorem isZero_eq_false_of_not_whole (h : ¬∃ z : ℤ, signedUnits s m = z * unitsPerOne) :
    m.isZero = false := by
  refine Bool.eq_false_of_not_eq_true fun hzero ↦ h ⟨0, ?_⟩
  rw [Magnitude.eq_zero_of_isZero hzero, signedUnits, Magnitude.units_zero, Int.zero_mul]
  cases s <;> rfl

theorem resultText_of_not_whole (h : ¬∃ z : ℤ, signedUnits s m = z * unitsPerOne) :
    (finite s m).resultText = (finite s m).shortestText ∧
      (finite s m).resultText.toList = signText s ++ shortestLayout.text (shortest m) := by
  have hnone : (finite s m).whole? = none :=
    Option.eq_none_iff_forall_not_mem.mpr fun z hz ↦ h ⟨z, whole?_finite_eq_some_iff.mp hz⟩
  have htext : (finite s m).resultText = (finite s m).shortestText := by rw [resultText, hnone]
  refine ⟨htext, ?_⟩
  rw [htext, shortestText, String.toList_ofList, layOut, isZero_eq_false_of_not_whole h,
    if_neg Bool.false_ne_true]

/-- Each text is read, and as a number equal to the one printed. -/
theorem exists_reading (hx : x ≠ nan) :
    ∃ y, read? x.resultText.toList = some y ∧ IsReading x.resultText.toList y ∧
      NumericallyEqual y x := by
  match x with
  | nan => exact absurd rfl hx
  | infinity s =>
      rw [resultText_infinity]
      refine ⟨infinity s, ?_, .infinity s, .infinity s⟩
      cases s <;> rfl
  | finite s m =>
      by_cases hwhole : ∃ z : ℤ, signedUnits s m = z * unitsPerOne
      · obtain ⟨z, hz⟩ := hwhole
        have hunits := units_eq_of_signedUnits hz
        have hround := m.roundsTo_value (decide (z < 0))
        rw [value_of_whole hz] at hround
        have hnumeral := isNumeral_toDigits z.natAbs
        rw [resultText_of_whole hz]
        refine ⟨_, read?_of_roundsTo hnumeral hround, .numeral _ hnumeral hround, .finite ?_⟩
        rw [hz, signedUnits_eq _ hunits, signed_eq_self]
      · have hm := isZero_eq_false_of_not_whole hwhole
        obtain ⟨d, hshortest, -, htext, ⟨tail, d', hnumeral, hvalue⟩, -⟩ :=
          isShortestNumeral_layOut s hm
        have hround := hshortest.roundsTo
        rw [← hvalue] at hround
        rw [(resultText_of_not_whole hwhole).2, htext]
        exact ⟨_, read?_of_roundsTo hnumeral hround, .numeral s hnumeral hround, .finite rfl⟩

/-- Each result is read back as a number equal to it, so equal texts belong to equal
numbers.  A whole number is printed in full, any other finite one with the fewest digits
that are read back, and the infinities by name. -/
theorem resultText_faithful :
    (∀ x, x ≠ nan → ∃ y, read? x.resultText.toList = some y ∧ IsReading x.resultText.toList y ∧
      NumericallyEqual y x) ∧
    (∀ x y, x ≠ nan → y ≠ nan → x.resultText = y.resultText → NumericallyEqual x y) ∧
    (∀ s m z, signedUnits s m = z * unitsPerOne →
      IsWholeNumeral (finite s m).resultText.toList z) ∧
    (∀ s m, (¬∃ z : ℤ, signedUnits s m = z * unitsPerOne) →
      (finite s m).resultText = (finite s m).shortestText ∧
        IsShortestNumeral s m (finite s m).resultText.toList) ∧
    (infinity false).resultText = "inf" ∧ (infinity true).resultText = "-inf" := by
  refine ⟨fun x ↦ exists_reading, fun x y hx hy htext ↦ ?_, fun s m z hz ↦ ?_,
    fun s m hwhole ↦ ?_, rfl, rfl⟩
  · obtain ⟨w, hread, -, hequal⟩ := exists_reading hx
    obtain ⟨w', hread', -, hequal'⟩ := exists_reading hy
    rw [htext, hread', Option.some.injEq] at hread
    exact hequal.symm.trans (hread ▸ hequal')
  · rw [resultText_of_whole hz]
    exact isWholeNumeral_wholeText z
  · obtain ⟨hshortest, htext⟩ := resultText_of_not_whole hwhole
    rw [htext]
    exact ⟨hshortest, isShortestNumeral_layOut s (isZero_eq_false_of_not_whole hwhole)⟩

/-- A tenth, which is read back, and minus three. -/
theorem resultText_faithful_tenth :
    (∃ y, read? "0.1".toList = some y ∧
      NumericallyEqual y (finite false ⟨0x3FB999999999999A, by decide⟩)) ∧
    IsShortestNumeral false ⟨0x3FB999999999999A, by decide⟩ "0.1".toList ∧
    IsWholeNumeral "-3".toList (-3) := by
  obtain ⟨hread, -, hwhole, hshortest, -⟩ := resultText_faithful
  have htenth : (finite false ⟨0x3FB999999999999A, by decide⟩).resultText.toList =
      "0.1".toList := by decide +kernel
  have hthree : (finite true ⟨0x4008000000000000, by decide⟩).resultText.toList = "-3".toList := by
    decide +kernel
  refine ⟨?_, ?_, ?_⟩
  · obtain ⟨y, hy, -, hequal⟩ := hread (finite false ⟨0x3FB999999999999A, by decide⟩) nofun
    exact ⟨y, htenth ▸ hy, hequal⟩
  · rw [← htenth]
    refine (hshortest false _ ?_).2
    rintro ⟨z, hz⟩
    have hrest : signedUnits false ⟨0x3FB999999999999A, by decide⟩ % unitsPerOne ≠ 0 := by
      decide +kernel
    exact hrest (hz ▸ Int.mul_emod_left z unitsPerOne)
  · rw [← hthree]
    exact hwhole true _ (-3) (by decide +kernel)

end Binary64
end Reckoner
