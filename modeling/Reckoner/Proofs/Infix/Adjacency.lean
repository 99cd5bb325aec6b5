import Reckoner.Proofs.Infix.Grammar
import Reckoner.Proofs.Infix.Release

/-!
# Neighbours in an expression

In an expression every operator stands between two operands, and no pair of parentheses
is empty.  Of the token lists with matching parentheses in which this holds, those
with one number more than operators are exactly the expressions: any two operands
side by side would cost an operator.
-/

namespace Reckoner
namespace Infix

open Text

def endsOperand (c : Char) : Bool :=
  c.isDigit || c == ')'

def startsOperand (c : Char) : Bool :=
  c.isDigit || c == '('

/-- Whether `b` may follow `a`. -/
structure Fits (a b : Char) : Prop where
  left : isOperator b = true → endsOperand a = true
  right : isOperator a = true → startsOperand b = true
  pair : a = '(' → b ≠ ')'

instance (a b : Char) : Decidable (Fits a b) :=
  decidable_of_iff ((isOperator b = true → endsOperand a = true) ∧
      (isOperator a = true → startsOperand b = true) ∧ (a = '(' → b ≠ ')'))
    ⟨fun ⟨hleft, hright, hpair⟩ ↦ ⟨hleft, hright, hpair⟩, fun h ↦ ⟨h.left, h.right, h.pair⟩⟩

theorem startsOperand_symbol (op : Operation) : startsOperand op.symbol = false := by
  cases op <;> rfl

theorem endsOperand_symbol (op : Operation) : endsOperand op.symbol = false := by
  cases op <;> rfl

theorem fits_of_startsOperand {a b : Char} (h : startsOperand b = true) : Fits a b where
  left hop := absurd (hop.symm.trans (isOperator_eq_false_of h startsOperand_symbol))
    Bool.noConfusion
  right _ := h
  pair _ hb := absurd (hb ▸ h) (by decide)

theorem fits_of_endsOperand {a b : Char} (h : endsOperand a = true) : Fits a b where
  left _ := h
  right hop := absurd (hop.symm.trans (isOperator_eq_false_of h endsOperand_symbol))
    Bool.noConfusion
  pair ha := absurd (ha ▸ h) (by decide)

theorem startsOperand_of_isDigit {c : Char} (h : c.isDigit = true) : startsOperand c = true := by
  rw [startsOperand, h, Bool.true_or]

theorem endsOperand_of_isDigit {c : Char} (h : c.isDigit = true) : endsOperand c = true := by
  rw [endsOperand, h, Bool.true_or]

/-- The characters of the tokens, with one before and one after them, fit together. -/
def FitBetween (a : Char) (ts : List Token) (b : Char) : Prop :=
  (a :: (ts.flatMap Token.chars ++ [b])).IsChain Fits

variable {a b : Char} {ts x y : List Token}

theorem fitBetween_split {c : Char} :
    FitBetween a (x ++ .sign c :: y) b ↔ FitBetween a x c ∧ FitBetween c y b := by
  have happend : (x ++ Token.sign c :: y).flatMap Token.chars ++ [b] =
      x.flatMap Token.chars ++ c :: (y.flatMap Token.chars ++ [b]) := by
    simp [Token.chars]
  rw [FitBetween, happend, List.isChain_cons_split]
  rfl

theorem FitBetween.fits_of_nil (h : FitBetween a [] b) : Fits a b :=
  List.isChain_pair.mp h

theorem fitBetween_sign_cons {c : Char} :
    FitBetween a (.sign c :: ts) b ↔ Fits a c ∧ FitBetween c ts b := by
  rw [← List.nil_append (Token.sign c :: ts), fitBetween_split]
  exact and_congr_left fun _ ↦ List.isChain_pair

/-- Past a number, its last digit stands before what follows. -/
theorem FitBetween.of_number_cons {n : Numeral}
    (h : FitBetween a (.word n.digits :: ts) b) :
    ∃ d, FitBetween d ts b := by
  obtain ⟨digits, last, hdigits⟩ : ∃ digits last, n.digits = digits ++ [last] :=
    ⟨_, _, (List.dropLast_append_getLast n.digits_ne_nil).symm⟩
  refine ⟨last, ?_⟩
  have happend : (Token.word n.digits :: ts).flatMap Token.chars ++ [b] =
      digits ++ last :: (ts.flatMap Token.chars ++ [b]) := by
    simp [Token.chars, hdigits]
  rw [FitBetween, happend] at h
  exact (List.isChain_cons_split.mp h).2

/-! ## Expressions fit -/

theorem isChain_digits {digits : List Char} (h : ∀ c ∈ digits, c.isDigit = true)
    (hne : digits ≠ []) (a b : Char) : (a :: (digits ++ [b])).IsChain Fits := by
  induction digits generalizing a with
  | nil => exact absurd rfl hne
  | cons d digits ih =>
      have hd : d.isDigit = true := h d List.mem_cons_self
      rw [List.cons_append, List.isChain_cons_cons]
      refine ⟨fits_of_startsOperand (startsOperand_of_isDigit hd), ?_⟩
      cases digits with
      | nil => exact List.isChain_pair.mpr (fits_of_endsOperand (endsOperand_of_isDigit hd))
      | cons e digits => exact ih (fun c hc ↦ h c (List.mem_cons_of_mem d hc)) (by simp) d

theorem Phrase.fitBetween {k : Nonterminal} (e : Phrase k) (a b : Char) :
    FitBetween a e.tokens b := by
  induction e generalizing a b with
  | number n =>
      have hchars : [Token.word n.digits].flatMap Token.chars = n.digits := by
        simp [Token.chars]
      rw [Phrase.tokens, FitBetween, hchars]
      exact isChain_digits n.isDigit_of_mem n.digits_ne_nil a b
  | group e ih =>
      have hclosing : FitBetween ')' [] b :=
        List.isChain_pair.mpr (fits_of_endsOperand rfl)
      have hinner : FitBetween '(' (e.tokens ++ [.sign ')']) b :=
        fitBetween_split.mpr ⟨ih '(' ')', hclosing⟩
      exact fitBetween_sign_cons.mpr ⟨fits_of_startsOperand rfl, hinner⟩
  | single first ih => exact ih a b
  | apply before op last ihb ihl =>
      exact fitBetween_split.mpr ⟨ihb a op.symbol, ihl op.symbol b⟩

theorem Phrase.kind_of_mem {k : Nonterminal} (e : Phrase k) {c : Char}
    (h : c ∈ e.tokens.flatMap Token.chars) :
    c.isDigit = true ∨ isOperator c = true ∨ isParenthesis c = true := by
  induction e with
  | number n =>
      have hc : c ∈ n.digits := by simpa [Phrase.tokens, Token.chars] using h
      exact .inl (n.isDigit_of_mem c hc)
  | group e ih =>
      have hc : c = '(' ∨ c ∈ e.tokens.flatMap Token.chars ∨ c = ')' := by
        simpa [Phrase.tokens, Token.chars] using h
      rcases hc with rfl | hc | rfl
      · exact .inr (.inr rfl)
      · exact ih hc
      · exact .inr (.inr rfl)
  | single first ih => exact ih h
  | apply before op last ihb ihl =>
      rw [Phrase.tokens, List.flatMap_append, List.mem_append, List.flatMap_cons,
        List.mem_append] at h
      rcases h with hc | hc | hc
      · exact ihb hc
      · obtain rfl := List.mem_singleton.mp hc
        exact .inr (.inl (isOperator_symbol op))
      · exact ihl hc

/-! ## What fits and is balanced is an expression -/

/-- Numbers, operators and matching parentheses, in any order. -/
inductive Balanced : List Token → Prop
  | nil : Balanced []
  | number (n : Numeral) {ts : List Token} (h : Balanced ts) :
      Balanced (.word n.digits :: ts)
  | operator (op : Operation) {ts : List Token} (h : Balanced ts) :
      Balanced (.sign op.symbol :: ts)
  | group {x y : List Token} (hx : Balanced x) (hy : Balanced y) :
      Balanced (.sign '(' :: (x ++ .sign ')' :: y))

def Token.isOperator : Token → Bool
  | .word _ => false
  | .sign c => Infix.isOperator c

def numbers (ts : List Token) : Nat :=
  ts.countP Token.isWord

def operators (ts : List Token) : Nat :=
  ts.countP Token.isOperator

@[simp] theorem numbers_nil : numbers [] = 0 := rfl

@[simp] theorem operators_nil : operators [] = 0 := rfl

@[simp] theorem numbers_word_cons (w : List Char) (ts : List Token) :
    numbers (.word w :: ts) = numbers ts + 1 :=
  List.countP_cons_of_pos rfl

@[simp] theorem operators_word_cons (w : List Char) (ts : List Token) :
    operators (.word w :: ts) = operators ts := by
  simp [operators, Token.isOperator]

@[simp] theorem numbers_sign_cons (c : Char) (ts : List Token) :
    numbers (.sign c :: ts) = numbers ts := by
  simp [numbers, Token.isWord]

@[simp] theorem operators_symbol_cons (op : Operation) (ts : List Token) :
    operators (.sign op.symbol :: ts) = operators ts + 1 := by
  simp [operators, Token.isOperator, isOperator_symbol]

theorem numbers_group (x y : List Token) :
    numbers (.sign '(' :: (x ++ .sign ')' :: y)) = numbers x + numbers y := by
  simp [numbers, Token.isWord]

theorem operators_group (x y : List Token) :
    operators (.sign '(' :: (x ++ .sign ')' :: y)) = operators x + operators y := by
  have hopening : Infix.isOperator '(' = false := rfl
  have hclosing : Infix.isOperator ')' = false := rfl
  simp [operators, Token.isOperator, hopening, hclosing]

/-- `ts` goes on from any expression to a longer one. -/
def Continues (ts : List Token) : Prop :=
  ∀ e : Phrase .expression, ∃ e' : Phrase .expression, e'.tokens = e.tokens ++ ts

theorem continues_nil : Continues [] :=
  fun e ↦ ⟨e, (List.append_nil _).symm⟩

theorem Continues.operator (op : Operation) (term : Phrase .term) (h : Continues ts) :
    Continues (.sign op.symbol :: (term.tokens ++ ts)) := by
  intro e
  obtain ⟨e', he'⟩ := h (.apply e op term)
  exact ⟨e', by rw [he', Phrase.tokens, List.append_assoc, List.cons_append]⟩

theorem Continues.exists_phrase (term : Phrase .term) (h : Continues ts) :
    ∃ e : Phrase .expression, e.tokens = term.tokens ++ ts :=
  h (.single term)

/-- Where an operand is due, more numbers than operators follow; one more makes a term
and what continues it. -/
def OperandDue (ts : List Token) : Prop :=
  operators ts + 1 ≤ numbers ts ∧
    (numbers ts = operators ts + 1 →
      ∃ (term : Phrase .term) (tail : List Token), ts = term.tokens ++ tail ∧ Continues tail)

/-- After an operand, no fewer numbers than operators follow; as many make what
continues the operand. -/
def OperandPast (ts : List Token) : Prop :=
  operators ts ≤ numbers ts ∧ (numbers ts = operators ts → Continues ts)

theorem OperandDue.number (n : Numeral) (h : OperandPast ts) :
    OperandDue (.word n.digits :: ts) := by
  obtain ⟨hle, hcontinues⟩ := h
  constructor
  · simpa using hle
  · intro heq
    refine ⟨.number n, ts, rfl, hcontinues ?_⟩
    simpa using heq

/-- A second operand in a row leaves a number too many. -/
theorem OperandPast.number (n : Numeral) (h : OperandPast ts) :
    OperandPast (.word n.digits :: ts) := by
  have hle := h.1
  rw [OperandPast, numbers_word_cons, operators_word_cons]
  exact ⟨by omega, fun heq ↦ absurd heq (by omega)⟩

theorem OperandPast.operator (op : Operation) (h : OperandDue ts) :
    OperandPast (.sign op.symbol :: ts) := by
  obtain ⟨hle, hterm⟩ := h
  constructor
  · simpa using hle
  · intro heq
    simp only [numbers_sign_cons, operators_symbol_cons] at heq
    obtain ⟨term, tail, rfl, htail⟩ := hterm heq
    exact htail.operator op term

theorem OperandDue.group (hx : OperandDue x) (hy : OperandPast y) :
    OperandDue (.sign '(' :: (x ++ .sign ')' :: y)) := by
  obtain ⟨hlex, hterm⟩ := hx
  obtain ⟨hley, hcontinues⟩ := hy
  rw [OperandDue, numbers_group, operators_group]
  constructor
  · omega
  · intro heq
    obtain ⟨term, tail, rfl, htail⟩ := hterm (by omega)
    obtain ⟨e, he⟩ := htail.exists_phrase term
    refine ⟨.group e, y, ?_, hcontinues (by omega)⟩
    rw [Phrase.tokens, he]
    simp

theorem OperandPast.group (hx : OperandDue x) (hy : OperandPast y) :
    OperandPast (.sign '(' :: (x ++ .sign ')' :: y)) := by
  have hlex := hx.1
  have hley := hy.1
  rw [OperandPast, numbers_group, operators_group]
  exact ⟨by omega, fun heq ↦ absurd heq (by omega)⟩

/-- Balanced tokens that fit meet both conditions, the first if an operand is due where
they begin. -/
theorem Balanced.operandDue_and_operandPast (h : Balanced ts) :
    (∀ a b, ts ≠ [] → endsOperand a = false → startsOperand b = false →
        FitBetween a ts b → OperandDue ts) ∧
      (∀ a b, startsOperand b = false → FitBetween a ts b → OperandPast ts) := by
  induction h with
  | nil => exact ⟨fun _ _ hne ↦ absurd rfl hne, fun _ _ _ _ ↦ ⟨le_refl _, fun _ ↦ continues_nil⟩⟩
  | @number n ts h ih =>
      have hpast : ∀ a b, startsOperand b = false →
          FitBetween a (.word n.digits :: ts) b → OperandPast ts := by
        intro a b hb hfit
        obtain ⟨d, hfit⟩ := hfit.of_number_cons
        exact ih.2 d b hb hfit
      constructor
      · intro a b _ _ hb hfit
        exact .number n (hpast a b hb hfit)
      · intro a b hb hfit
        exact .number n (hpast a b hb hfit)
  | @operator op ts h ih =>
      constructor
      · intro a b _ ha _ hfit
        have hends := (fitBetween_sign_cons.mp hfit).1.left (isOperator_symbol op)
        exact absurd (hends.symm.trans ha) Bool.noConfusion
      · intro a b hb hfit
        have hrest := (fitBetween_sign_cons.mp hfit).2
        have hne : ts ≠ [] := by
          rintro rfl
          have hstarts := hrest.fits_of_nil.right (isOperator_symbol op)
          exact absurd (hstarts.symm.trans hb) Bool.noConfusion
        exact .operator op (ih.1 op.symbol b hne (endsOperand_symbol op) hb hrest)
  | @group x y hx hy ihx ihy =>
      have hparts : ∀ a b, startsOperand b = false →
          FitBetween a (.sign '(' :: (x ++ .sign ')' :: y)) b →
            OperandDue x ∧ OperandPast y := by
        intro a b hb hfit
        obtain ⟨hinner, houter⟩ := fitBetween_split.mp (fitBetween_sign_cons.mp hfit).2
        have hne : x ≠ [] := by
          rintro rfl
          exact hinner.fits_of_nil.pair rfl rfl
        exact ⟨ihx.1 '(' ')' hne rfl rfl hinner, ihy.2 ')' b hb houter⟩
      constructor
      · intro a b _ _ hb hfit
        obtain ⟨hduex, hpasty⟩ := hparts a b hb hfit
        exact .group hduex hpasty
      · intro a b hb hfit
        obtain ⟨hduex, hpasty⟩ := hparts a b hb hfit
        exact .group hduex hpasty

/-- Balanced tokens that fit and hold one number more than operators form an
expression. -/
theorem Balanced.exists_phrase (h : Balanced ts) (hcount : numbers ts = operators ts + 1)
    (ha : endsOperand a = false) (hb : startsOperand b = false) (hfit : FitBetween a ts b) :
    ∃ e : Phrase .expression, e.tokens = ts := by
  have hne : ts ≠ [] := by
    rintro rfl
    simp at hcount
  obtain ⟨-, hterm⟩ := h.operandDue_and_operandPast.1 a b hne ha hb hfit
  obtain ⟨term, tail, rfl, htail⟩ := hterm hcount
  exact htail.exists_phrase term

end Infix
end Reckoner
