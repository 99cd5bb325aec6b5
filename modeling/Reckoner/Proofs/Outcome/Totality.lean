import Reckoner.Log.Event
import Reckoner.Proofs.Outcome.Failures
import Reckoner.Proofs.Outcome.Faults

/-!
# Every expression has an outcome

No fault comes through, and an outcome has one of two shapes: a number without a
message, or the value zero with the message of a failure that the expression has.  Only
a failure is reported above the level of detail, and it is reported once.
-/

namespace Reckoner

open Text Infix Postfix Log

/-! ## Reports -/

def informs (e : Event) : Bool :=
  decide (e.level = .info)

theorem filter_informs_conversionEvents (expression : String) :
    (conversionEvents expression).filter informs = [] := by
  rw [conversionEvents]
  split <;> rfl

theorem filter_informs_evaluationEvents (stream : String) :
    (evaluationEvents stream).filter informs = [] := by
  rw [evaluationEvents, List.filter_append, List.append_eq_nil_iff]
  constructor
  · rw [List.filter_eq_nil_iff]
    intro e he
    obtain ⟨c, -, rfl⟩ := List.mem_map.mp he
    exact Bool.false_ne_true
  · split <;> rfl

theorem filter_informs_outcomeEvents (expression : String) :
    (outcomeEvents expression).filter informs =
      match valueOf expression with
      | .ok _ => []
      | .error .notANumber => [.notANumber expression]
      | .error failure => [.failed expression failure.message] := by
  rw [outcomeEvents, List.filter_append, List.filter_append, filter_informs_conversionEvents]
  -- neither stage informs, so only the report of the failure remains
  cases toPostfix .standard expression with
  | ok stream =>
      simp only [filter_informs_evaluationEvents, List.nil_append]
      cases valueOf expression with
      | ok value => rfl
      | error failure => cases failure <;> rfl
  | error e =>
      simp only [List.filter_nil, List.nil_append]
      cases valueOf expression with
      | ok value => rfl
      | error failure => cases failure <;> rfl

theorem length_filter_informs (expression : String) :
    ((outcomeEvents expression).filter informs).length =
      if (outcomeOf expression).success then 0 else 1 := by
  rw [filter_informs_outcomeEvents, outcomeOf]
  cases valueOf expression with
  | ok value => rfl
  | error failure => cases failure <;> rfl

/-! ## Shapes -/

theorem unknown_standard {c : Char} (h : Unknown .standard c) :
    isBlank c = false ∧ c.isDigit = false ∧ c ≠ marker ∧ isOperator c = false ∧
      isParenthesis c = false := by
  obtain ⟨hblank, hoperand, hnone, hparen⟩ := h
  obtain ⟨hdigit, hmarker⟩ := (Bool.or_eq_false_iff).mp hoperand
  rw [OperatorTable.standard, Option.map_eq_none_iff] at hnone
  exact ⟨hblank, hdigit, by simpa using hmarker, by simp [isOperator, hnone], hparen⟩

theorem Explained.message_ne_empty {expression : String} {failure : Failure}
    (h : Explained expression failure) : failure.message ≠ "" := by
  intro hempty
  have hlength : failure.message.length = 0 := by rw [hempty]; rfl
  rcases h.message_eq with hm | ⟨c, -, -, hm⟩ | hm | ⟨stream, values, -, -, hm⟩
  · rw [hm] at hlength
    cases hlength
  · rw [hm, String.length_append] at hlength
    exact absurd (Nat.eq_zero_of_add_eq_zero_right hlength) (by decide)
  · rw [hm] at hlength
    cases hlength
  · rw [hm, String.append_assoc, String.append_assoc, String.length_append] at hlength
    exact absurd (Nat.eq_zero_of_add_eq_zero_right hlength) (by decide)

/-- Every expression has an outcome, with nothing raised on the way to it: a number and
no message, or zero and the message of what is wrong with the expression.  A failure is
reported once, a success never. -/
theorem outcomeOf_total (expression : String) :
    Raising.outcome expression = .ok (outcomeOf expression) ∧
    ((outcomeOf expression).success = true ∧ (outcomeOf expression).value.isNan = false ∧
        (outcomeOf expression).message = "" ∨
      (outcomeOf expression).success = false ∧ (outcomeOf expression).value = .zero ∧
        (outcomeOf expression).message ≠ "" ∧
        ((outcomeOf expression).message = "Parentheses mismatched" ∨
          (∃ c ∈ expression.toList,
            (isBlank c = false ∧ c.isDigit = false ∧ c ≠ marker ∧ isOperator c = false ∧
              isParenthesis c = false) ∧
            (outcomeOf expression).message = "Unknown token: " ++ String.singleton c) ∨
          (outcomeOf expression).message = "Invalid Expression" ∨
          ∃ (stream : String) (values : List Binary64),
            toPostfix .standard expression = .ok stream ∧ 2 ≤ values.length ∧
            (outcomeOf expression).message =
              "Invalid expression (remaining operands): " ++ stream ++ ", stack: " ++
                ", ".intercalate (values.map Binary64.sixDigitText))) ∧
    ((outcomeEvents expression).filter fun e ↦ e.level = .info).length =
      if (outcomeOf expression).success then 0 else 1 := by
  refine ⟨Raising.outcome_eq expression, ?_, length_filter_informs expression⟩
  rcases outcomeOf_cases expression with ⟨value, hnumber, h⟩ | ⟨failure, hexplained, h⟩
  · rw [h]
    exact .inl ⟨rfl, hnumber, rfl⟩
  · rw [h]
    refine .inr ⟨rfl, rfl, hexplained.message_ne_empty, ?_⟩
    rcases hexplained.message_eq with hm | ⟨c, hmem, hunknown, hm⟩ | hm | hremaining
    · exact .inl hm
    · exact .inr (.inl ⟨c, hmem, unknown_standard hunknown, hm⟩)
    · exact .inr (.inr (.inl hm))
    · exact .inr (.inr (.inr hremaining))

end Reckoner
