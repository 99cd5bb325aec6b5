import Reckoner.Proofs.Outcome.LeftToRight
import Reckoner.Proofs.Outcome.Streams

/-!
# Why an expression fails

A conversion fails where parentheses do not match or at a character of the text that
means nothing.  What it writes is readable, so evaluation never meets an operand that is
no number; it fails for want of an operand or with operands left over.  The last way to
fail is a value that is no number.
-/

namespace Reckoner

open Text Infix Postfix

/-- A failure that an expression can have. -/
inductive Explained (expression : String) : Failure → Prop
  | parentheses : Explained expression (.unreadable .mismatchedParentheses)
  | token {c : Char} (hmem : c ∈ expression.toList) (hunknown : Unknown .standard c) :
      Explained expression (.unreadable (.unknownToken c))
  | operand : Explained expression (.unevaluable .invalidExpression)
  | leftover {stream : String} {values : List Binary64}
      (hstream : toPostfix .standard expression = .ok stream) (htwo : 2 ≤ values.length) :
      Explained expression (.unevaluable (.remainingOperands stream values))
  | number : Explained expression .notANumber

theorem error_of_toPostfix {t : OperatorTable} {text : String} {e : SyntaxError}
    (h : toPostfix t text = .error e) :
    e = .mismatchedParentheses ∨ ∃ c ∈ text.toList, Unknown t c ∧ e = .unknownToken c :=
  error_of_convert (map_eq_error_iff.mp h)

theorem exists_readable_of_toPostfix {text stream : String}
    (h : toPostfix .standard text = .ok stream) :
    ∃ chars, stream = String.ofList (spaced chars) ∧ Readable ' ' chars := by
  obtain ⟨chars, hchars, rfl⟩ := map_eq_ok_iff.mp h
  exact ⟨chars, rfl, readable_of_convert hchars⟩

theorem explained_of_valueOf {expression : String} {failure : Failure}
    (h : valueOf expression = .error failure) : Explained expression failure := by
  rw [valueOf_eq] at h
  rcases bind_eq_error_iff.mp h with hstream | ⟨stream, hstream, h⟩
  · obtain ⟨e, he, rfl⟩ := mapError_eq_error_iff.mp hstream
    rcases error_of_toPostfix he with rfl | ⟨c, hc, hunknown, rfl⟩
    · exact .parentheses
    · exact .token hc hunknown
  have hconverted := mapError_eq_ok_iff.mp hstream
  rcases bind_eq_error_iff.mp h with hvalue | ⟨value, -, h⟩
  · obtain ⟨e, he, rfl⟩ := mapError_eq_error_iff.mp hvalue
    obtain ⟨chars, rfl, hreadable⟩ := exists_readable_of_toPostfix hconverted
    rcases error_of_evaluate hreadable he with rfl | ⟨values, htwo, rfl⟩
    · exact .operand
    · exact .leftover hconverted htwo
  · split at h
    · obtain rfl := Except.error.inj h
      exact .number
    · cases h

/-! ## Messages -/

theorem Explained.message_eq {expression : String} {failure : Failure}
    (h : Explained expression failure) :
    failure.message = "Parentheses mismatched" ∨
    (∃ c ∈ expression.toList, Unknown .standard c ∧
      failure.message = "Unknown token: " ++ String.singleton c) ∨
    failure.message = "Invalid Expression" ∨
    ∃ (stream : String) (values : List Binary64), toPostfix .standard expression = .ok stream ∧
      2 ≤ values.length ∧ failure.message =
        "Invalid expression (remaining operands): " ++ stream ++ ", stack: " ++
          ", ".intercalate (values.map Binary64.sixDigitText) := by
  cases h with
  | parentheses => exact .inl rfl
  | token hmem hunknown => exact .inr (.inl ⟨_, hmem, hunknown, rfl⟩)
  | operand => exact .inr (.inr (.inl rfl))
  | leftover hstream htwo => exact .inr (.inr (.inr ⟨_, _, hstream, htwo, rfl⟩))
  | number => exact .inr (.inr (.inl rfl))

theorem not_prefix_append_of_length_le {w x : List Char} (hlength : w.length ≤ x.length)
    (h : ¬w <+: x) (y : List Char) : ¬w <+: x ++ y :=
  fun hprefix ↦ h (List.prefix_of_prefix_length_le hprefix (List.prefix_append x y) hlength)

theorem Explained.not_prefix_message {expression : String} {failure : Failure}
    (h : Explained expression failure) :
    ¬"Invalid operand".toList <+: failure.message.toList := by
  rcases h.message_eq with hm | ⟨c, -, -, hm⟩ | hm | ⟨stream, values, -, -, hm⟩
  · rw [hm]
    decide
  · rw [hm, String.toList_append]
    exact not_prefix_append_of_length_le (by decide) (by decide) _
  · rw [hm]
    decide
  · rw [hm, String.append_assoc, String.append_assoc, String.toList_append]
    exact not_prefix_append_of_length_le (by decide) (by decide) _

theorem outcomeOf_cases (expression : String) :
    (∃ value, value.isNan = false ∧ outcomeOf expression = .succeeded value) ∨
      ∃ failure, Explained expression failure ∧
        outcomeOf expression = .failed failure.message := by
  rw [outcomeOf]
  cases h : valueOf expression with
  | ok value =>
      refine .inl ⟨value, ?_, rfl⟩
      rw [valueOf_eq] at h
      obtain ⟨stream, -, h⟩ := bind_eq_ok_iff.mp h
      obtain ⟨value', -, h⟩ := bind_eq_ok_iff.mp h
      cases hnan : value'.isNan with
      | true => simp [hnan] at h
      | false =>
          rw [hnan, if_neg Bool.false_ne_true] at h
          obtain rfl := Except.ok.inj h
          exact hnan
  | error failure => exact .inr ⟨failure, explained_of_valueOf h, rfl⟩

/-- A conversion writes nothing but digits, markers and operators, one space between any
two.  While its stream is evaluated, outside an operand no digit and no unknown character
is met, and no operand is anything but a run of digits; so no expression is reported to
hold an invalid operand. -/
theorem toPostfix_readable (expression : String) :
    (∀ stream, toPostfix .standard expression = .ok stream →
      (∃ chars, stream = String.ofList (spaced chars) ∧
        ∀ c ∈ chars, c.isDigit = true ∨ c = marker ∨ isOperator c = true) ∧
      (∀ x c y m, stream.toList = x ++ c :: y → Machine.start.run x = .ok m →
        m.operand? = none → isBlank c = true ∨ c = marker ∨ isOperator c = true) ∧
      ignored stream = [] ∧
      ∀ w, evaluate stream ≠ .error (.invalidOperand w)) ∧
    ¬"Invalid operand".toList <+: (outcomeOf expression).message.toList := by
  constructor
  · intro stream hstream
    obtain ⟨chars, rfl, hreadable⟩ := exists_readable_of_toPostfix hstream
    refine ⟨⟨chars, rfl, fun c hc ↦ ?_⟩, ?_, ignored_spaced_eq_nil hreadable, ?_⟩
    · obtain ⟨b, hb⟩ := hreadable.exists_admits hc
      exact hb.kind
    · intro x c y m hsplit hrun hnone
      rw [String.toList_ofList] at hsplit
      exact kind_of_run_of_operand?_eq_none hreadable hsplit hrun hnone
    · intro w herror
      rcases error_of_evaluate hreadable herror with h | ⟨values, -, h⟩
      · cases h
      · cases h
  · rcases outcomeOf_cases expression with ⟨value, -, h⟩ | ⟨failure, hexplained, h⟩
    · rw [h]
      change ¬"Invalid operand".toList <+: "".toList
      decide
    · rw [h]
      exact hexplained.not_prefix_message

theorem toPostfix_markers_and_groups :
    toPostfix .standard "1_(_23-4 5)*6" = .ok "_ 1 _ _ _ 2 3 _ 4 _ 5 - _ 6 *" ∧
      ignored "_ 1 _ _ _ 2 3 _ 4 _ 5 - _ 6 *" = [] := by
  have hstream : toPostfix .standard "1_(_23-4 5)*6" =
      .ok "_ 1 _ _ _ 2 3 _ 4 _ 5 - _ 6 *" := by decide
  exact ⟨hstream, ((toPostfix_readable "1_(_23-4 5)*6").1 _ hstream).2.2.1⟩

end Reckoner
