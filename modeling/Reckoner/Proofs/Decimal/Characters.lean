import Reckoner.Decimal.Numeral
import Reckoner.Proofs.Text.Lines

/-!
# The characters of numerals

A numeral, however it is laid out, is on one line.
-/

namespace Reckoner

open Text

theorem unbroken_toDigits (n : Nat) : Unbroken (Nat.toDigits 10 n) :=
  unbroken_of_isDigit fun _ hc ↦ Nat.isDigit_of_mem_toDigits (by decide) (by decide) hc

theorem unbroken_signText (negative : Bool) : Unbroken (signText negative) := by
  cases negative <;> decide

theorem unbroken_wholeText (n : Int) : Unbroken (wholeText n) :=
  unbroken_append.mpr ⟨unbroken_signText _, unbroken_toDigits _⟩

theorem unbroken_replicate {c : Char} (hc : c ∉ lineBoundaries) (n : Nat) :
    Unbroken (List.replicate n c) :=
  fun d hd ↦ by rwa [List.eq_of_mem_replicate hd]

namespace Decimal

variable {digits : List Char}

theorem unbroken_significantDigits (d : Decimal) : Unbroken d.significantDigits := by
  refine (unbroken_toDigits d.coefficient).of_subset fun c hc ↦ ?_
  rw [significantDigits, List.mem_reverse] at hc
  exact List.mem_reverse.mp ((List.dropWhile_sublist _).subset hc)

theorem unbroken_exponentText (e : Int) : Unbroken (exponentText e) := by
  have hsign : (if e < 0 then '-' else '+') ∉ lineBoundaries := by split <;> decide
  refine unbroken_cons.mpr ⟨by decide, unbroken_cons.mpr ⟨hsign, ?_⟩⟩
  split
  · exact unbroken_cons.mpr ⟨by decide, unbroken_toDigits _⟩
  · exact unbroken_toDigits _

theorem unbroken_plainText {l : Layout} (hl : Unbroken l.wholeEnding) (h : Unbroken digits)
    (e : Int) : Unbroken (plainText l digits e) := by
  have hzeros : ∀ n, Unbroken (List.replicate n '0') := unbroken_replicate (by decide)
  rw [plainText]
  split
  · exact unbroken_cons.mpr ⟨by decide, unbroken_cons.mpr ⟨by decide,
      unbroken_append.mpr ⟨hzeros _, h⟩⟩⟩
  · dsimp only
    split
    · exact unbroken_append.mpr ⟨unbroken_append.mpr ⟨h, hzeros _⟩, hl⟩
    · exact unbroken_append.mpr ⟨h.of_subset (List.take_subset _ _),
        unbroken_cons.mpr ⟨by decide, h.of_subset (List.drop_subset _ _)⟩⟩

theorem unbroken_scientificText (h : Unbroken digits) (e : Int) :
    Unbroken (scientificText digits e) := by
  unfold scientificText
  split
  · next first second rest =>
      obtain ⟨hfirst, hrest⟩ := unbroken_cons.mp h
      exact unbroken_append.mpr ⟨unbroken_cons.mpr ⟨hfirst, unbroken_cons.mpr ⟨by decide, hrest⟩⟩,
        unbroken_exponentText e⟩
  · exact unbroken_append.mpr ⟨h, unbroken_exponentText e⟩

theorem unbroken_text {l : Layout} (hl : Unbroken l.wholeEnding) (d : Decimal) :
    Unbroken (l.text d) := by
  rw [Layout.text]
  split
  · exact unbroken_plainText hl d.unbroken_significantDigits _
  · exact unbroken_scientificText d.unbroken_significantDigits _

end Decimal

namespace Binary64

theorem unbroken_layOut {l : Decimal.Layout} (hl : Unbroken l.wholeEnding)
    (select : Magnitude → Decimal) (x : Binary64) : Unbroken (x.layOut l select) := by
  cases x with
  | nan =>
      have hname : Unbroken "nan".toList := by decide
      exact hname
  | infinity negative => exact unbroken_append.mpr ⟨unbroken_signText _, by decide⟩
  | finite negative m =>
      exact unbroken_append.mpr ⟨unbroken_signText _, Decimal.unbroken_text hl _⟩

theorem unbroken_shortestText (x : Binary64) : Unbroken x.shortestText.toList := by
  rw [shortestText, String.toList_ofList]
  exact unbroken_layOut (by decide) _ x

theorem unbroken_sixDigitText (x : Binary64) : Unbroken x.sixDigitText.toList := by
  rw [sixDigitText, String.toList_ofList]
  exact unbroken_layOut unbroken_nil _ x

theorem unbroken_resultText (x : Binary64) : Unbroken x.resultText.toList := by
  rw [resultText]
  split
  · rw [String.toList_ofList]
    exact unbroken_wholeText _
  · exact x.unbroken_shortestText

end Binary64
end Reckoner
