import Mathlib.Data.List.Basic
import Reckoner.Proofs.Decimal.Rounded
import Reckoner.Proofs.Decimal.Written

/-!
# Six digits in general notation

A number in general notation is positional as long as the exponent of its first digit is
small, and otherwise scientific.  The exponent is that of the number which is written, so
where rounding carries into one more digit, the greater exponent decides and is shown.
Zeros at the end of a fraction are left out, and the point with them if nothing else
follows it.
-/

namespace Reckoner
namespace Decimal

/-- The digits after a point, where there is one, end in one that is no zero. -/
def NoZeroAtEnd (text : List Char) : Prop :=
  ∀ front rest, text = front ++ '.' :: rest →
    ∃ last ∈ (rest.takeWhile Char.isDigit).getLast?, last ≠ '0'

/-- One digit that is no zero, a fraction if there is any, and the exponent `e`. -/
def IsScientific (text : List Char) (e : ℤ) : Prop :=
  ∃ first rest, text = first :: (rest ++ exponentText e) ∧ first.isDigit = true ∧ first ≠ '0' ∧
    ∀ c ∈ rest.head?, c = '.'

/-- `text` shows `value`, whose first digit has the exponent `exponent`, in general notation
with six digits. -/
structure IsGeneralNumeral (text : List Char) (value : ℚ) (exponent : ℤ) : Prop where
  numeral : ∃ tail d, IsNumeral tail text d ∧ d.value = value
  noZeroAtEnd : NoZeroAtEnd text
  e_mem_iff : 'e' ∈ text ↔ exponent < -4 ∨ 6 ≤ exponent
  scientific : 'e' ∈ text → IsScientific text exponent

variable {l : Layout} {d : Decimal} {digits whole fraction tail text : List Char} {c count : Nat}
  {e : ℤ}

/-! ## The fraction -/

theorem noZeroAtEnd_of_notMem (h : '.' ∉ text) : NoZeroAtEnd text := by
  rintro front rest rfl
  exact absurd (List.mem_append_right front List.mem_cons_self) h

theorem point_notMem_exponentText (e : ℤ) : '.' ∉ exponentText e := by
  have hdigits : '.' ∉ Nat.toDigits 10 e.natAbs :=
    notMem_of_isDigit rfl (isDigit_of_mem_toDigits e.natAbs)
  unfold exponentText
  dsimp only
  split <;> split <;> simp [hdigits]

theorem IsTail.point_notMem (h : IsTail tail e) : '.' ∉ tail := by
  rcases h with ⟨rfl, -⟩ | rfl
  · exact List.not_mem_nil
  · exact point_notMem_exponentText e

theorem noZeroAtEnd_point (hwhole : ∀ c ∈ whole, c.isDigit = true)
    (hfraction : ∀ c ∈ fraction, c.isDigit = true) (htail : IsTail tail e)
    (hlast : ∃ last ∈ fraction.getLast?, last ≠ '0') :
    NoZeroAtEnd (whole ++ '.' :: (fraction ++ tail)) := by
  intro front rest h
  -- there is no other point
  have hfront : '.' ∉ whole := notMem_of_isDigit rfl hwhole
  have hrest : '.' ∉ fraction ++ tail := by
    rw [List.mem_append]
    exact not_or_intro (notMem_of_isDigit rfl hfraction) htail.point_notMem
  obtain ⟨-, -, rfl⟩ := (List.append_cons_inj_of_notMem hfront hrest).mp h
  rwa [List.takeWhile_append_of_pos hfraction, htail.takeWhile, List.append_nil]

theorem noZeroAtEnd_plainText (hl : l.wholeEnding = [])
    (hdigits : ∀ c ∈ digits, c.isDigit = true) (hlast : ∃ last ∈ digits.getLast?, last ≠ '0')
    (e : ℤ) : NoZeroAtEnd (plainText l digits e) := by
  have hne : digits ≠ [] := by
    rintro rfl
    obtain ⟨_, hnone, -⟩ := hlast
    cases hnone
  rw [plainText]
  split
  · have hzeros := List.forall_mem_append.mpr
      ⟨forall_mem_replicate_zero (-e - 1).toNat, hdigits⟩
    rw [← List.getLast?_append_of_ne_nil (List.replicate (-e - 1).toNat '0') hne] at hlast
    have hpoint := noZeroAtEnd_point (List.forall_mem_singleton.mpr zero_isDigit) hzeros
      isTail_nil hlast
    rwa [List.append_nil] at hpoint
  · dsimp only
    split
    · have hwhole := List.forall_mem_append.mpr
        ⟨hdigits, forall_mem_replicate_zero (e.toNat + 1 - digits.length)⟩
      rw [hl, List.append_nil]
      exact noZeroAtEnd_of_notMem (notMem_of_isDigit rfl hwhole)
    · next hlength =>
        have hwhole : ∀ c ∈ digits.take (e.toNat + 1), c.isDigit = true := fun c hc ↦
          hdigits c (List.mem_of_mem_take hc)
        have hfraction : ∀ c ∈ digits.drop (e.toNat + 1), c.isDigit = true := fun c hc ↦
          hdigits c (List.mem_of_mem_drop hc)
        have hend : (digits.drop (e.toNat + 1)).getLast? = digits.getLast? := by
          rw [List.getLast?_drop, if_neg hlength]
        rw [← hend] at hlast
        have hpoint := noZeroAtEnd_point hwhole hfraction isTail_nil hlast
        rwa [List.append_nil] at hpoint

theorem noZeroAtEnd_scientificText (hdigits : ∀ c ∈ digits, c.isDigit = true)
    (hlast : ∃ last ∈ digits.getLast?, last ≠ '0') (e : ℤ) :
    NoZeroAtEnd (scientificText digits e) := by
  match digits with
  | [] =>
      obtain ⟨_, hnone, -⟩ := hlast
      cases hnone
  | [first] =>
      have hfirst : '.' ∉ [first] := notMem_of_isDigit rfl hdigits
      apply noZeroAtEnd_of_notMem
      rw [scientificText, List.mem_append]
      · exact not_or_intro hfirst (point_notMem_exponentText e)
      · simp
  | first :: second :: rest =>
      obtain ⟨hfirst, hrest⟩ := List.forall_mem_cons.mp hdigits
      rw [List.getLast?_cons_cons] at hlast
      exact noZeroAtEnd_point (List.forall_mem_singleton.mpr hfirst) hrest
        (isTail_exponentText e) hlast

/-! ## The notation -/

theorem isScientific_scientificText {first : Char} (hfirst : first.isDigit = true)
    (hzero : first ≠ '0') (more : List Char) (e : ℤ) :
    IsScientific (scientificText (first :: more) e) e := by
  cases more with
  | nil => exact ⟨first, [], rfl, hfirst, hzero, nofun⟩
  | cons second rest =>
      refine ⟨first, '.' :: second :: rest, rfl, hfirst, hzero, fun c hc ↦ ?_⟩
      exact (Option.some.inj hc).symm

theorem noZeroAtEnd_text (hl : l.wholeEnding = []) (hd : d.coefficient ≠ 0) :
    NoZeroAtEnd (l.text d) := by
  obtain ⟨n, _, hn, hdigits, -⟩ := exists_significand hd
  have hall := isDigit_of_mem_toDigits n
  have hlast : ∃ last ∈ (Nat.toDigits 10 n).getLast?, last ≠ '0' := by
    obtain ⟨front, last, heq, hne⟩ := exists_toDigits_eq_append hn
    exact ⟨last, by rw [heq, List.getLast?_concat, Option.mem_some_iff], hne⟩
  rw [Layout.text, hdigits]
  split
  · exact noZeroAtEnd_plainText hl hall hlast _
  · exact noZeroAtEnd_scientificText hall hlast _

theorem isScientific_text (hd : d.coefficient ≠ 0)
    (hrange : ¬(l.plainFrom ≤ d.firstExponent ∧ d.firstExponent < l.plainBelow)) :
    IsScientific (l.text d) d.firstExponent := by
  obtain ⟨n, _, hn, hdigits, -⟩ := exists_significand hd
  have hall := isDigit_of_mem_toDigits n
  have hhead := head?_toDigits_ne_zero fun hzero : n = 0 ↦ hn (by rw [hzero])
  rw [Layout.text, hdigits, if_neg hrange]
  cases h : Nat.toDigits 10 n with
  | nil => exact absurd h Nat.toDigits_ne_nil
  | cons first more =>
      rw [h] at hall hhead
      exact isScientific_scientificText (hall first List.mem_cons_self)
        (fun hzero ↦ hhead (hzero ▸ rfl)) more _

theorem isGeneralNumeral_text (hd : d.coefficient ≠ 0) :
    IsGeneralNumeral (Binary64.sixDigitLayout.text d) d.value d.firstExponent := by
  obtain ⟨tail, d', hnumeral, hvalue, htail⟩ :=
    isNumeral_text (l := Binary64.sixDigitLayout) (.inl rfl) hd
  have hletter := hnumeral.e_mem_iff.trans htail
  refine ⟨⟨tail, d', hnumeral, hvalue⟩, noZeroAtEnd_text rfl hd, ?_, fun h ↦ ?_⟩
  · rw [hletter, not_and_or, not_le, not_lt]
    rfl
  · exact isScientific_text hd (hletter.mp h)

/-- The exponent of the first digit of a decimal that has `count` digits. -/
theorem firstExponent_eq (hd : d.coefficient ≠ 0) (hcount : 0 < count)
    (hlow : 10 ^ (count - 1) ≤ c) (hhigh : c < 10 ^ count) (hvalue : d.value = c * 10 ^ e) :
    d.firstExponent = e + (count - 1 : Nat) := by
  apply Int.le_antisymm
  · by_contra hlt
    have hle : e + count ≤ d.firstExponent := by omega
    rw [le_firstExponent_iff hd, hvalue, ten_zpow_add_natCast,
      mul_le_mul_iff_left₀ (ten_zpow_pos e), Nat.cast_le] at hle
    exact absurd hle (Nat.not_le_of_lt hhigh)
  · rw [le_firstExponent_iff hd, hvalue, ten_zpow_add_natCast,
      mul_le_mul_iff_left₀ (ten_zpow_pos e), Nat.cast_le]
    exact hlow

end Decimal

namespace Binary64

open Decimal

/-- `text` shows the number with the sign `s` and the magnitude `m`, rounded to six digits,
in general notation. -/
def IsSixDigitNumeral (s : Bool) (m : Magnitude) (text : List Char) : Prop :=
  ∃ (c : Nat) (e : ℤ) (body : List Char), IsRounded 6 m.value c e ∧ text = signText s ++ body ∧
    IsGeneralNumeral body (c * 10 ^ e) (e + 5)

variable {m : Magnitude}

theorem isSixDigitNumeral_sixDigitText (s : Bool) (hm : m.isZero = false) :
    IsSixDigitNumeral s m (finite s m).sixDigitText.toList := by
  have hunits := Magnitude.units_pos hm
  have hcoefficient := coefficient_significant_ne_zero 6 hunits unitsPerOne_pos
  have hsix : 1 < 6 := by decide
  obtain ⟨c, e, hrounded, hvalue⟩ := exists_isRounded_significant hsix hunits unitsPerOne_pos
  have hexponent := firstExponent_eq hcoefficient (by decide) hrounded.pow_le hrounded.lt_pow hvalue
  have hgeneral := isGeneralNumeral_text hcoefficient
  rw [hvalue, hexponent] at hgeneral
  refine ⟨c, e, _, hrounded, ?_, hgeneral⟩
  rw [sixDigitText, String.toList_ofList, layOut, hm, if_neg Bool.false_ne_true]

end Binary64
end Reckoner
