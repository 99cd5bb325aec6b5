import Reckoner.Infix.Conversion
import Reckoner.Operator.Operation

/-!
# The kinds of characters

Blanks, word characters, operators and parentheses exclude one another, and digits and
the marker are word characters.  What holds of no operator holds of nothing that is one,
and likewise for parentheses; most of these facts are cases of those two.
-/

namespace Reckoner
namespace Infix

open Text

def isOperator (c : Char) : Bool :=
  (Operation.ofSymbol? c).isSome

variable {c : Char} {p : Char → Bool}

theorem isOperator_symbol (op : Operation) : isOperator op.symbol = true := by
  simp [isOperator]

theorem isOperator_eq_true_iff : isOperator c = true ↔ ∃ op : Operation, op.symbol = c := by
  rw [isOperator, Option.isSome_iff_exists]
  exact exists_congr fun op ↦ Operation.ofSymbol?_eq_some_iff.trans eq_comm

theorem isOperator_eq_false_of (h : p c = true) (hp : ∀ op : Operation, p op.symbol = false) :
    isOperator c = false := by
  rw [← Bool.not_eq_true]
  intro hc
  obtain ⟨op, rfl⟩ := isOperator_eq_true_iff.mp hc
  exact Bool.false_ne_true ((hp op).symm.trans h)

theorem isParenthesis_eq_true_iff : isParenthesis c = true ↔ c = '(' ∨ c = ')' := by
  rw [isParenthesis, Bool.or_eq_true, beq_iff_eq, beq_iff_eq]

theorem isParenthesis_eq_false_of (h : p c = true) (hopening : p '(' = false)
    (hclosing : p ')' = false) : isParenthesis c = false := by
  rw [← Bool.not_eq_true]
  intro hc
  rcases isParenthesis_eq_true_iff.mp hc with rfl | rfl
  · exact Bool.false_ne_true (hopening.symm.trans h)
  · exact Bool.false_ne_true (hclosing.symm.trans h)

/-! ## Operators -/

theorem isWord_symbol (op : Operation) : isWord op.symbol = false := by
  cases op <;> rfl

theorem isBlank_symbol (op : Operation) : isBlank op.symbol = false := by
  cases op <;> rfl

theorem isParenthesis_symbol (op : Operation) : isParenthesis op.symbol = false := by
  cases op <;> rfl

theorem ne_parentheses_of_symbol (op : Operation) : op.symbol ≠ '(' ∧ op.symbol ≠ ')' := by
  simpa [isParenthesis] using isParenthesis_symbol op

/-! ## Word characters -/

theorem isWord_marker : isWord marker = true := rfl

theorem ne_marker_of_symbol (op : Operation) : op.symbol ≠ marker := fun h ↦
  Bool.false_ne_true ((isWord_symbol op).symm.trans (h ▸ isWord_marker))

theorem isBlank_marker : isBlank marker = false :=
  isBlank_eq_false_of_isWord isWord_marker

theorem isWord_eq_false_of_isBlank (h : isBlank c = true) : isWord c = false := by
  rw [← Bool.not_eq_true]
  intro hw
  exact Bool.false_ne_true ((isBlank_eq_false_of_isWord hw).symm.trans h)

theorem isDigit_eq_false_of_not_word (h : isWord c = false) : c.isDigit = false := by
  rw [← Bool.not_eq_true]
  intro hdigit
  exact Bool.false_ne_true (h.symm.trans (isWord_of_isDigit hdigit))

theorem isBlank_eq_false_of_isDigit (h : c.isDigit = true) : isBlank c = false :=
  isBlank_eq_false_of_isWord (isWord_of_isDigit h)

theorem ne_marker_of_isDigit (h : c.isDigit = true) : c ≠ marker := by
  rintro rfl
  exact Bool.false_ne_true h

theorem isOperator_eq_false_of_isWord (h : isWord c = true) : isOperator c = false :=
  isOperator_eq_false_of h isWord_symbol

theorem isOperator_eq_false_of_isBlank (h : isBlank c = true) : isOperator c = false :=
  isOperator_eq_false_of h isBlank_symbol

theorem isParenthesis_eq_false_of_isWord (h : isWord c = true) : isParenthesis c = false :=
  isParenthesis_eq_false_of h rfl rfl

theorem isParenthesis_eq_false_of_isBlank (h : isBlank c = true) : isParenthesis c = false :=
  isParenthesis_eq_false_of h rfl rfl

theorem ofSymbol?_eq_none_of_isDigit (h : c.isDigit = true) : Operation.ofSymbol? c = none := by
  have hop := isOperator_eq_false_of_isWord (isWord_of_isDigit h)
  rwa [isOperator, Option.isSome_eq_false_iff, Option.isNone_iff_eq_none] at hop

end Infix
end Reckoner
