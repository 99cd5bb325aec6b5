import Reckoner.Proofs.Outcome.LeftToRight

/-!
# Blanks between tokens

Blanks come into a conversion twice: they end a word when the text is marked, and they
are passed over when the marked text is read.  Either alone would make a difference; the
two together leave only the tokens of the text.  So blanks can be put in or left out
anywhere but inside a word, in texts that fail as in texts that do not.
-/

namespace Reckoner

open Text Infix Postfix

/-- The outcome of a text is decided by what it is converted to. -/
theorem outcomeOf_congr {text text' : String}
    (h : toPostfix .standard text = toPostfix .standard text') :
    outcomeOf text = outcomeOf text' := by
  rw [outcomeOf, outcomeOf, valueOf_eq, valueOf_eq, h]

/-- Under every table, blanks between two texts make no difference to the postfix form of
the two together, nor to the error if there is none, unless a word goes on from the first
into the second; nor do they to the outcome. -/
theorem toPostfix_append_blanks (t : OperatorTable) {x w y : String}
    (hw : ∀ c ∈ w.toList, isBlank c = true)
    (h : ¬(endsWord x.toList = true ∧ startsWord y.toList = true)) :
    toPostfix t (x ++ w ++ y) = toPostfix t (x ++ y) ∧
      outcomeOf (x ++ w ++ y) = outcomeOf (x ++ y) := by
  have hcut : endsWord x.toList = true → startsWord y.toList = false := fun hx ↦
    Bool.eq_false_iff.mpr fun hy ↦ h ⟨hx, hy⟩
  have htokens : tokens (x ++ w ++ y).toList = tokens (x ++ y).toList := by
    rw [String.toList_append, String.toList_append, String.toList_append]
    exact tokens_append_blanks hw hcut
  exact ⟨toPostfix_congr htokens, outcomeOf_congr (toPostfix_congr htokens)⟩

/-- A line separator, a field separator and a tab between a number and an operator that
only the larger table has. -/
theorem toPostfix_append_separators :
    (∀ c ∈ "\u2028\x1c\t".toList, isBlank c = true) ∧
      ¬(endsWord "6 (25".toList = true ∧ startsWord "^3)".toList = true) ∧
      toPostfix .withPower ("6 (25" ++ "\u2028\x1c\t" ++ "^3)") = .ok "_ 6 _ 2 5 _ 3 ^" ∧
      outcomeOf ("6 (25" ++ "\u2028\x1c\t" ++ "^3)") = .failed "Unknown token: ^" := by
  have hw : ∀ c ∈ "\u2028\x1c\t".toList, isBlank c = true :=
    List.all_eq_true.mp (by decide)
  have hcut : ¬(endsWord "6 (25".toList = true ∧ startsWord "^3)".toList = true) := by decide
  obtain ⟨hstream, houtcome⟩ := toPostfix_append_blanks .withPower hw hcut
  refine ⟨hw, hcut, hstream.trans (by decide), houtcome.trans ?_⟩
  decide +kernel

/-- Inside a word a blank does make a difference. -/
example : outcomeOf "1 2" ≠ outcomeOf ("1" ++ "2") := by
  decide +kernel

end Reckoner
