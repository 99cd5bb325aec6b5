import Reckoner.Proofs.Decimal.Characters
import Reckoner.Proofs.Outcome.Totality

/-!
# Messages on one line

Text from outside comes into a message quoted, as the stream of a conversion, which holds
no blank but spaces, or as the one character that means nothing, which is no blank.  So
no expression can break the line of a message.
-/

namespace Reckoner

open Text Infix Postfix Log

theorem unbroken_spaced {chars : List Char} (h : Unbroken chars) : Unbroken (spaced chars) := by
  intro c hc
  rcases mem_of_mem_intersperse hc with rfl | hc
  · decide
  · exact h c hc

theorem unbroken_intercalate {sep : String} {texts : List String} (hsep : Unbroken sep.toList)
    (h : ∀ text ∈ texts, Unbroken text.toList) : Unbroken (sep.intercalate texts).toList := by
  rw [String.toList_intercalate]
  intro c hc
  obtain ⟨part, hpart, hcpart⟩ := List.mem_flatten.mp hc
  rcases mem_of_mem_intersperse hpart with rfl | hpart
  · exact hsep c hcpart
  · obtain ⟨text, htext, rfl⟩ := List.mem_map.mp hpart
    exact h text htext c hcpart

theorem unbroken_of_toPostfix {text stream : String}
    (h : toPostfix .standard text = .ok stream) : Unbroken stream.toList := by
  obtain ⟨chars, rfl, hreadable⟩ := exists_readable_of_toPostfix h
  rw [String.toList_ofList]
  refine unbroken_spaced fun c hc ↦ ?_
  obtain ⟨b, hb⟩ := hreadable.exists_admits hc
  exact notMem_lineBoundaries_of_not_blank hb.isBlank_eq_false

theorem Explained.unbroken_message {expression : String} {failure : Failure}
    (h : Explained expression failure) : Unbroken failure.message.toList := by
  rcases h.message_eq with hm | ⟨c, -, hunknown, hm⟩ | hm | ⟨stream, values, hstream, -, hm⟩
  · rw [hm]
    decide
  · rw [hm, String.toList_append, String.toList_singleton, unbroken_append, unbroken_cons]
    exact ⟨by decide, notMem_lineBoundaries_of_not_blank (unknown_standard hunknown).1,
      unbroken_nil⟩
  · rw [hm]
    decide
  · have hvalues : Unbroken (", ".intercalate (values.map Binary64.sixDigitText)).toList :=
      unbroken_intercalate (by decide) fun text htext ↦ by
        obtain ⟨value, -, rfl⟩ := List.mem_map.mp htext
        exact value.unbroken_sixDigitText
    simp only [hm, String.toList_append, unbroken_append]
    exact ⟨⟨⟨by decide, unbroken_of_toPostfix hstream⟩, by decide⟩, hvalues⟩

theorem unbroken_message_outcomeOf (expression : String) :
    Unbroken (outcomeOf expression).message.toList := by
  rcases outcomeOf_cases expression with ⟨value, -, h⟩ | ⟨failure, hexplained, h⟩
  · rw [h]
    exact unbroken_nil
  · rw [h]
    exact hexplained.unbroken_message

/-! ## Events -/

theorem unbroken_quote (text : String) : Unbroken (quote text).toList := by
  rw [toList_quote]
  exact unbroken_quoteChars _

/-- Only the message of a failure comes into that of an event unquoted. -/
theorem Log.Event.unbroken_message (e : Event)
    (h : ∀ expression message, e = .failed expression message → Unbroken message.toList) :
    Unbroken e.message.toList := by
  cases e with
  | converted expression stream =>
      change Unbroken ("Converted " ++ quote expression ++ " to postfix " ++ quote stream).toList
      simp only [String.toList_append, unbroken_append]
      exact ⟨⟨⟨by decide, unbroken_quote _⟩, by decide⟩, unbroken_quote _⟩
  | ignored c =>
      change Unbroken ("Ignoring stray character " ++ quote (String.singleton c) ++
        " in postfix stream").toList
      simp only [String.toList_append, unbroken_append]
      exact ⟨⟨by decide, unbroken_quote _⟩, by decide⟩
  | evaluated stream value =>
      change Unbroken
        ("Evaluated postfix " ++ quote stream ++ " to " ++ value.shortestText).toList
      simp only [String.toList_append, unbroken_append]
      exact ⟨⟨⟨by decide, unbroken_quote _⟩, by decide⟩, value.unbroken_shortestText⟩
  | failed expression message =>
      change Unbroken ("Could not evaluate " ++ quote expression ++ ": " ++ message).toList
      simp only [String.toList_append, unbroken_append]
      exact ⟨⟨⟨by decide, unbroken_quote _⟩, by decide⟩, h expression message rfl⟩
  | notANumber expression =>
      change Unbroken ("Expression " ++ quote expression ++ " is not a number").toList
      simp only [String.toList_append, unbroken_append]
      exact ⟨⟨by decide, unbroken_quote _⟩, by decide⟩
  | exiting status =>
      have hstatus : Unbroken (String.ofList (wholeText status)).toList := by
        rw [String.toList_ofList]
        exact unbroken_wholeText _
      change Unbroken ("Exiting with status " ++ String.ofList (wholeText status)).toList
      simp only [String.toList_append, unbroken_append]
      exact ⟨by decide, hstatus⟩

theorem exists_failure_of_failed_mem {x expression message : String}
    (h : .failed expression message ∈ outcomeEvents x) :
    ∃ failure, valueOf x = .error failure ∧ message = failure.message := by
  have hinforms : .failed expression message ∈ (outcomeEvents x).filter informs :=
    List.mem_filter.mpr ⟨h, rfl⟩
  rw [filter_informs_outcomeEvents] at hinforms
  split at hinforms
  · cases hinforms
  · cases List.mem_singleton.mp hinforms
  · next failure _ hvalue =>
      exact ⟨failure, hvalue, (Event.failed.inj (List.mem_singleton.mp hinforms)).2⟩

theorem unbroken_of_mem_outcomeEvents {x : String} {e : Event} (h : e ∈ outcomeEvents x) :
    Unbroken e.message.toList := by
  refine e.unbroken_message fun expression message he ↦ ?_
  obtain ⟨failure, hvalue, rfl⟩ := exists_failure_of_failed_mem (he ▸ h)
  exact (explained_of_valueOf hvalue).unbroken_message

end Reckoner
