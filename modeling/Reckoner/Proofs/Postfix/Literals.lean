import Reckoner.Proofs.Binary64.Correct
import Reckoner.Proofs.Binary64.Whole
import Reckoner.Proofs.Postfix.Holding
import Reckoner.Proofs.Postfix.Parts

/-!
# The number that an operand denotes

An operand of digits is read as one whole number, however long it is, and rounded once.
So it denotes the binary64 number nearest to its numeral, and digits that add nothing to
the numeral add nothing to the value.  No other text is an operand.
-/

namespace Reckoner
namespace Postfix

open Binary64 Text

/-- What a run of digits denotes is the number that is correctly rounded, and no other. -/
theorem roundsTo_digits_iff {digits : List Char} {v : Binary64} :
    RoundsTo false (Nat.ofDigitChars 10 digits 0) v ↔ v = digitsValue digits := by
  have hround : RoundsTo false (Nat.ofDigitChars 10 digits 0) (digitsValue digits) :=
    ofNat_roundsTo _
  exact ⟨fun h ↦ h.unique hround, fun h ↦ h ▸ hround⟩

theorem digitsValue_replicate_zero_append (zeros : Nat) (digits : List Char) :
    digitsValue (List.replicate zeros '0' ++ digits) = digitsValue digits := by
  rw [digitsValue, Nat.ofDigitChars_append, Nat.ofDigitChars_replicate_zero, Nat.mul_zero,
    digitsValue]

/-- The texts that are an operand are the runs of ASCII digits.  Each denotes the one
binary64 number that is nearest to its numeral, half to even, which is infinite from the
middle between the greatest finite number and the next power of two on, and zeros in front
change nothing.  Any other text is refused, an empty one and one that is no number with
different messages. -/
theorem operandValue_roundsTo (text : List Char) :
    (text ≠ [] → (∀ c ∈ text, c.isDigit = true) →
      ∃ v, operandValue text = .ok v ∧
        (∀ w, RoundsTo false (Nat.ofDigitChars 10 text 0) w ↔ w = v) ∧
        (v = .infinity false ↔ 2 ^ 1024 - 2 ^ 970 ≤ Nat.ofDigitChars 10 text 0) ∧
        ∀ zeros, operandValue (List.replicate zeros '0' ++ text) = .ok v) ∧
    (text = [] →
      ∃ e, operandValue text = .error e ∧ e.message = "Invalid Expression") ∧
    (text ≠ [] → (∃ c ∈ text, c.isDigit = false) →
      ∃ e, operandValue text = .error e ∧
        e.message = "Invalid operand: " ++ quote (String.ofList text)) := by
  refine ⟨fun hne hdigits ↦ ?_, fun hempty ↦ ?_, fun hne hother ↦ ?_⟩
  · refine ⟨digitsValue text, operandValue_digits hne hdigits, fun w ↦ roundsTo_digits_iff,
      ofNat_eq_infinity_iff _, fun zeros ↦ ?_⟩
    rw [operandValue_digits, digitsValue_replicate_zero_append]
    · exact List.append_ne_nil_of_right_ne_nil _ hne
    · intro c hc
      rcases List.mem_append.mp hc with hzero | hc
      · rw [List.eq_of_mem_replicate hzero]
        rfl
      · exact hdigits c hc
  · exact ⟨.invalidExpression, operandValue_eq_error_iff.mpr (.inl ⟨hempty, rfl⟩), rfl⟩
  · obtain ⟨c, hc, hnot⟩ := hother
    have hall : text.all Char.isDigit = false := List.all_eq_false.mpr ⟨c, hc, by simp [hnot]⟩
    exact ⟨.invalidOperand (String.ofList text),
      operandValue_eq_error_iff.mpr (.inr ⟨hne, hall, rfl⟩), rfl⟩

/-- Between two neighbours above `2 ^ 53` the one with the even significand is taken. -/
theorem operandValue_roundsTo_tie :
    (∃ v, operandValue "9007199254740993".toList = .ok v ∧
      RoundsTo false 9007199254740993 v ∧ v.whole? = some 9007199254740992 ∧
      operandValue "009007199254740993".toList = .ok v) ∧
    (∃ e, operandValue [] = .error e ∧ e.message = "Invalid Expression") ∧
    ∃ e, operandValue ['1', '²'] = .error e ∧ e.message = "Invalid operand: '1²'" := by
  have hdigits : ∀ c ∈ "9007199254740993".toList, c.isDigit = true :=
    List.all_eq_true.mp (by decide)
  obtain ⟨v, hv, hround, -, hzeros⟩ := (operandValue_roundsTo _).1 (by decide) hdigits
  obtain ⟨e, he, hmessage⟩ :=
    (operandValue_roundsTo ['1', '²']).2.2 (by decide) ⟨'²', by decide, by decide⟩
  have hnumeral : Nat.ofDigitChars 10 "9007199254740993".toList 0 = 9007199254740993 := by decide
  have heven : operandValue "9007199254740993".toList = .ok (ofNat 9007199254740992) := by
    decide +kernel
  refine ⟨⟨v, hv, ?_, ?_, hzeros 2⟩, (operandValue_roundsTo []).2.1 rfl, e, he, ?_⟩
  · have hnearest := (hround v).mpr rfl
    rwa [hnumeral, Nat.cast_ofNat] at hnearest
  · have hvalue : v = ofNat 9007199254740992 := Except.ok.inj (hv.symm.trans heven)
    rw [hvalue, whole?_ofNat (by decide)]
    rfl
  · rw [hmessage]
    decide +kernel

end Postfix
end Reckoner
