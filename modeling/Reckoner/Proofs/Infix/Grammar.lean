import Reckoner.Proofs.Infix.Levels
import Reckoner.Proofs.Infix.Precedence
import Reckoner.Proofs.Postfix.Holding

/-!
# Well-formed expressions

The grammar of expressions is `E ::= T (op T)*`, `T ::= digits | '(' E ')'`, with blanks
between the tokens.  A derivation gives the tokens and the value, for which the
operations are applied strictly from left to right.  Under the standard table a
derivation is a legibly written tree.
-/

namespace Reckoner
namespace Infix

open Postfix

inductive Nonterminal where
  | term
  | expression

/-- Derivations, by the nonterminal they start from; a sequence of terms is read from
its end. -/
inductive Phrase : Nonterminal → Type where
  | number (n : Numeral) : Phrase .term
  | group (e : Phrase .expression) : Phrase .term
  | single (first : Phrase .term) : Phrase .expression
  | apply (before : Phrase .expression) (op : Operation) (last : Phrase .term) :
      Phrase .expression

def Numeral.value (n : Numeral) : Binary64 :=
  digitsValue n.digits

/-- The value of a number is what evaluation makes of its digits. -/
theorem Numeral.operandValue_digits (n : Numeral) : operandValue n.digits = .ok n.value :=
  Postfix.operandValue_digits n.digits_ne_nil n.isDigit_of_mem

namespace Phrase

variable {k : Nonterminal}

def tokens {k : Nonterminal} : Phrase k → List Token
  | number n => [.word n.digits]
  | group e => .sign '(' :: e.tokens ++ [.sign ')']
  | single first => first.tokens
  | apply before op last => before.tokens ++ .sign op.symbol :: last.tokens

def value {k : Nonterminal} : Phrase k → Binary64
  | number n => n.value
  | group e => e.value
  | single first => first.value
  | apply before op last => op.apply before.value last.value

def written {k : Nonterminal} : Phrase k → Written
  | number n => .number n
  | group e => .group e.written
  | single first => first.written
  | apply before op last => .binary op.symbol before.written last.written

theorem tokens_written (e : Phrase k) : e.written.tokens = e.tokens := by
  induction e with
  | number n => rfl
  | group e ih => simp only [written, Written.tokens, tokens, ih]
  | single first ih => exact ih
  | apply before op last ihb ihl => simp only [written, Written.tokens, tokens, ihb, ihl]

theorem root?_written_term (e : Phrase .term) : e.written.root? = none := by
  cases e <;> rfl

end Phrase

theorem Phrase.legible_written {k : Nonterminal} (e : Phrase k) :
    e.written.Legible .standard := by
  induction e with
  | number n => exact .number n
  | group e ih => exact .group ih
  | single first ih => exact ih
  | apply before op last ihb ihl =>
      refine .binary (standard_symbol op) ihb ihl ?_ ?_
      · intro p g _ hg
        obtain rfl := standard_eq_leftToRight hg
        exact .inr ⟨rfl, rfl⟩
      · intro p g hp
        rw [last.root?_written_term] at hp
        cases hp

/-- The text is an expression, with blanks between its tokens. -/
def WellFormed (text : List Char) : Prop :=
  ∃ e : Phrase .expression, Spells e.tokens text

theorem Phrase.convert_eq {k : Nonterminal} (e : Phrase k) {text : List Char}
    (hs : Spells e.tokens text) :
    convert .standard text = .ok e.written.tree.postorder :=
  e.legible_written.convert_eq OperatorTable.plain_standard (e.tokens_written ▸ hs)

/-- Where `m` holds `vs`, the postorder of an expression pushes its value. -/
theorem Phrase.run_postorder {k : Nonterminal} (e : Phrase k) {m : Machine}
    {vs : List Binary64} (h : m.Holds vs) :
    ∃ m', m.run e.written.tree.postorder = .ok m' ∧ m'.Holds (e.value :: vs) := by
  induction e generalizing m vs with
  | number n => exact h.run_number n.isDigit_of_mem n.operandValue_digits
  | group e ih => exact ih h
  | single first ih => exact ih h
  | apply before op last ihb ihl =>
      obtain ⟨m₁, hrun₁, h₁⟩ := ihb h
      obtain ⟨m₂, hrun₂, h₂⟩ := ihl h₁
      have hop : m₂.run [op.symbol] = .ok ⟨⟨op.apply before.value last.value :: vs⟩, none⟩ := by
        rw [Machine.run_cons, h₂.step_symbol, ok_bind, Machine.run_nil]
      refine ⟨_, ?_, Machine.holds_of_none _⟩
      exact Machine.run_append_of_ok (Machine.run_append_of_ok hrun₁ hrun₂) hop

end Infix
end Reckoner
