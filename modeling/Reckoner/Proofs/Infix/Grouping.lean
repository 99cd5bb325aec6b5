import Mathlib.Logic.Relation
import Reckoner.Proofs.Infix.Grammar

/-!
# The grouping of an expression

Of a well-formed expression the postfix form keeps the tree and nothing else.  A postorder
is read back from its end: the last character tells an operator from a number, and a number
goes back to its marker.  What a text has beyond its tree are blanks and spare parentheses,
those around a single term and those around the beginning of an expression; two expressions
with one tree become the same once these are left out.
-/

namespace Reckoner
namespace Infix

open Relation Text

/-! ## Reading a postorder from its end -/

namespace Tree

theorem append_postorder_node (x : List Char) (op : Char) (left right : Tree) :
    x ++ (node op left right).postorder = x ++ left.postorder ++ right.postorder ++ [op] := by
  rw [postorder, List.append_assoc, List.append_assoc, List.append_assoc]

/-- An operator is neither a digit nor the marker, so no number ends with it. -/
theorem append_postorder_leaf_ne {n : Numeral} {op : Char} (hop : isOperandChar op = false)
    (x y : List Char) : x ++ (leaf n).postorder ≠ y ++ [op] := by
  intro h
  obtain ⟨w, d, hdigits⟩ := (List.eq_nil_or_concat' n.digits).resolve_left n.digits_ne_nil
  have hdigit : d.isDigit = true := n.isDigit_of_mem d (by simp [hdigits])
  rw [postorder, hdigits, ← List.cons_append, ← List.append_assoc] at h
  obtain ⟨-, rfl⟩ := List.append_singleton_inj.mp h
  rw [isOperandChar, hdigit, Bool.true_or] at hop
  exact Bool.noConfusion hop

theorem append_postorder_leaf_inj {n n' : Numeral} {x x' : List Char}
    (h : x ++ (leaf n).postorder = x' ++ (leaf n').postorder) : x = x' ∧ n = n' := by
  -- were the markers at different places, one would stand among the digits of the other
  have hplace : ∀ {y : List Char} {n n' : Numeral},
      (leaf n).postorder = y ++ (leaf n').postorder → y = [] := by
    intro y n n' hy
    cases y with
    | nil => rfl
    | cons c y =>
        obtain ⟨-, hdigits⟩ := List.cons.inj hy
        have hmem : marker ∈ n.digits := hdigits ▸ List.mem_append_right y List.mem_cons_self
        exact absurd rfl (ne_marker_of_isDigit (n.isDigit_of_mem marker hmem))
  have hsame : x = x' := by
    rcases List.append_eq_append_iff.mp h with ⟨y, rfl, hy⟩ | ⟨y, rfl, hy⟩
    · rw [hplace hy, List.append_nil]
    · rw [hplace hy, List.append_nil]
  subst hsame
  obtain ⟨w, _, _⟩ := n
  obtain ⟨w', _, _⟩ := n'
  obtain ⟨-, rfl⟩ := List.cons.inj (List.append_cancel_left h)
  exact ⟨rfl, rfl⟩

/-- A postorder can be told from whatever stands before it. -/
theorem append_postorder_inj {s s' : Tree} (hs : ∀ c ∈ s.operators, isOperandChar c = false)
    (hs' : ∀ c ∈ s'.operators, isOperandChar c = false) {x x' : List Char}
    (h : x ++ s.postorder = x' ++ s'.postorder) : x = x' ∧ s = s' := by
  induction s generalizing s' x x' with
  | leaf n =>
      cases s' with
      | leaf n' =>
          obtain ⟨hx, rfl⟩ := append_postorder_leaf_inj h
          exact ⟨hx, rfl⟩
      | node op' left' right' =>
          rw [append_postorder_node] at h
          exact absurd h (append_postorder_leaf_ne (hs' op' List.mem_cons_self) _ _)
  | node op left right ihleft ihright =>
      cases s' with
      | leaf n' =>
          rw [append_postorder_node] at h
          exact absurd h.symm (append_postorder_leaf_ne (hs op List.mem_cons_self) _ _)
      | node op' left' right' =>
          simp only [operators, List.forall_mem_cons, List.forall_mem_append] at hs hs'
          obtain ⟨-, hleft, hright⟩ := hs
          obtain ⟨-, hleft', hright'⟩ := hs'
          rw [append_postorder_node, append_postorder_node] at h
          obtain ⟨hoperands, rfl⟩ := List.append_singleton_inj.mp h
          obtain ⟨hbefore, rfl⟩ := ihright hright hright' hoperands
          obtain ⟨hx, rfl⟩ := ihleft hleft hleft' hbefore
          exact ⟨hx, rfl⟩

end Tree

/-! ## Spare parentheses -/

namespace Phrase

/-- What an expression says once its parentheses have grouped it. -/
def tree {k : Nonterminal} (e : Phrase k) : Tree :=
  e.written.tree

/-- One pair of parentheses is left out: around a single term, or around the beginning of
an expression, which is grouped to the left anyway. -/
inductive Spares : {k : Nonterminal} → Phrase k → Phrase k → Prop
  | term (only : Phrase .term) : Spares (.group (.single only)) only
  | beginning (first : Phrase .expression) : Spares (.single (.group first)) first
  | group {e e' : Phrase .expression} (h : Spares e e') : Spares (.group e) (.group e')
  | single {first first' : Phrase .term} (h : Spares first first') :
      Spares (.single first) (.single first')
  | before {e e' : Phrase .expression} (h : Spares e e') (op : Operation)
      (last : Phrase .term) : Spares (.apply e op last) (.apply e' op last)
  | last (before : Phrase .expression) (op : Operation) {last last' : Phrase .term}
      (h : Spares last last') : Spares (.apply before op last) (.apply before op last')

/-- The two become the same when spare parentheses are left out of them. -/
def SameButSpare {k : Nonterminal} (e e' : Phrase k) : Prop :=
  Join (ReflTransGen Spares) e e'

variable {k : Nonterminal} {e e' : Phrase k}

theorem isOperandChar_eq_false_of_mem_operators (e : Phrase k) :
    ∀ c ∈ e.tree.operators, isOperandChar c = false := by
  induction e with
  | number n => exact fun c hc ↦ absurd hc List.not_mem_nil
  | group e ih => exact ih
  | single first ih => exact ih
  | apply before op last ihb ihl =>
      exact List.forall_mem_cons.mpr ⟨isOperandChar_eq_false_of_isWord (isWord_symbol op),
        List.forall_mem_append.mpr ⟨ihb, ihl⟩⟩

theorem Spares.tree_eq (h : Spares e e') : e.tree = e'.tree := by
  induction h with
  | term only => rfl
  | beginning first => rfl
  | group h ih => exact ih
  | single h ih => exact ih
  | before h op last ih => exact congrArg (Tree.node op.symbol · last.tree) ih
  | last before op h ih => exact congrArg (Tree.node op.symbol before.tree) ih

/-- The tokens of the two differ by the pair alone. -/
theorem Spares.exists_tokens (h : Spares e e') :
    ∃ x y z, e.tokens = x ++ .sign '(' :: (y ++ .sign ')' :: z) ∧ e'.tokens = x ++ y ++ z := by
  induction h with
  | term only => exact ⟨[], only.tokens, [], rfl, by simp⟩
  | beginning first => exact ⟨[], first.tokens, [], rfl, by simp⟩
  | group h ih =>
      obtain ⟨x, y, z, he, he'⟩ := ih
      exact ⟨.sign '(' :: x, y, z ++ [.sign ')'], by simp [tokens, he], by simp [tokens, he']⟩
  | single h ih => exact ih
  | before h op last ih =>
      obtain ⟨x, y, z, he, he'⟩ := ih
      exact ⟨x, y, z ++ .sign op.symbol :: last.tokens, by simp [tokens, he],
        by simp [tokens, he']⟩
  | last before op h ih =>
      obtain ⟨x, y, z, he, he'⟩ := ih
      exact ⟨before.tokens ++ .sign op.symbol :: x, y, z, by simp [tokens, he],
        by simp [tokens, he']⟩

theorem tree_eq_of_reflTransGen (h : ReflTransGen Spares e e') : e.tree = e'.tree := by
  induction h with
  | refl => rfl
  | tail _ hstep ih => exact ih.trans hstep.tree_eq

/-! ## Phrases of one tree -/

/-- A single term as an expression. -/
def asExpression : {k : Nonterminal} → Phrase k → Phrase .expression
  | .term, e => .single e
  | .expression, e => e

/-- Without the spare parentheses around it, a number stands alone. -/
theorem reflTransGen_number (e : Phrase k) {n : Numeral} (h : e.tree = .leaf n) :
    ReflTransGen Spares e.asExpression (.single (.number n)) := by
  induction e with
  | number n' =>
      obtain rfl := Tree.leaf.inj h
      exact .refl
  | group e ih => exact .head (.beginning e) (ih h)
  | single first ih => exact ih h
  | apply before op last ihb ihl => cases h

/-- Without the spare parentheses around it, an expression shows its last operator. -/
theorem exists_reflTransGen_apply (e : Phrase k) {c : Char} {left right : Tree}
    (h : e.tree = .node c left right) :
    ∃ before op last, ReflTransGen Spares e.asExpression (.apply before op last) ∧
      op.symbol = c ∧ before.tree = left ∧ last.tree = right := by
  induction e with
  | number n => cases h
  | group e ih =>
      obtain ⟨before, op, last, hstep, hparts⟩ := ih h
      exact ⟨before, op, last, .head (.beginning e) hstep, hparts⟩
  | single first ih => exact ih h
  | apply before op last ihb ihl =>
      obtain ⟨hop, hleft, hright⟩ := Tree.node.inj h
      exact ⟨before, op, last, .refl, hop, hleft, hright⟩

/-- Terms of one tree are treated like the expressions in their parentheses. -/
theorem SameButSpare.of_terms {s : Tree}
    (hs : ∀ e e' : Phrase .expression, e.tree = s → e'.tree = s → SameButSpare e e')
    {last last' : Phrase .term} (h : last.tree = s) (h' : last'.tree = s) :
    SameButSpare last last' := by
  have hnumber : ∀ {n : Numeral} {e : Phrase .expression}, e.tree = .leaf n →
      ReflTransGen Spares (.group e) (.number n) := fun {n e} he ↦
    ((e.reflTransGen_number he).lift Phrase.group fun _ _ ↦ .group).tail (.term (.number n))
  cases last with
  | number n =>
      cases last' with
      | number n' =>
          obtain rfl := Tree.leaf.inj (h.trans h'.symm)
          exact ⟨.number n, .refl, .refl⟩
      | group e' => exact ⟨.number n, .refl, hnumber (h'.trans h.symm)⟩
  | group e =>
      cases last' with
      | number n' => exact ⟨.number n', hnumber (h.trans h'.symm), .refl⟩
      | group e' =>
          obtain ⟨inner, hstep, hstep'⟩ := hs e e' h h'
          exact ⟨.group inner, hstep.lift Phrase.group fun _ _ ↦ .group,
            hstep'.lift Phrase.group fun _ _ ↦ .group⟩

theorem SameButSpare.of_tree_eq {s : Tree} {e e' : Phrase .expression} (h : e.tree = s)
    (h' : e'.tree = s) : SameButSpare e e' := by
  induction s generalizing e e' with
  | leaf n => exact ⟨.single (.number n), e.reflTransGen_number h, e'.reflTransGen_number h'⟩
  | node c left right ihleft ihright =>
      obtain ⟨before, op, last, hstep, hop, hbefore, hlast⟩ := e.exists_reflTransGen_apply h
      obtain ⟨before', op', last', hstep', hop', hbefore', hlast'⟩ :=
        e'.exists_reflTransGen_apply h'
      obtain rfl : op = op' := by
        have hsymbol := congrArg Operation.ofSymbol? (hop.trans hop'.symm)
        simpa using hsymbol
      obtain ⟨inner, hinner, hinner'⟩ := ihleft hbefore hbefore'
      obtain ⟨final, hfinal, hfinal'⟩ :=
        SameButSpare.of_terms (fun _ _ ↦ ihright) hlast hlast'
      -- first the left operands are brought together, then the right ones
      have hjoin : ∀ {b : Phrase .expression} {l : Phrase .term},
          ReflTransGen Spares b inner → ReflTransGen Spares l final →
            ReflTransGen Spares (.apply b op l) (.apply inner op final) := fun {b l} hb hl ↦
        (hb.lift (Phrase.apply · op l) fun _ _ h ↦ .before h op l).trans
          (hl.lift (Phrase.apply inner op) fun _ _ h ↦ .last inner op h)
      exact ⟨.apply inner op final, hstep.trans (hjoin hinner hfinal),
        hstep'.trans (hjoin hinner' hfinal')⟩

theorem tree_eq_iff_sameButSpare {e e' : Phrase .expression} :
    e.tree = e'.tree ↔ SameButSpare e e' := by
  constructor
  · exact fun h ↦ SameButSpare.of_tree_eq h rfl
  · rintro ⟨_, hstep, hstep'⟩
    exact (tree_eq_of_reflTransGen hstep).trans (tree_eq_of_reflTransGen hstep').symm

end Phrase

/-- Two expressions have one postfix form exactly if they have one tree, with the numbers
digit for digit, and that is so exactly if they become the same, blanks aside, when pairs of
spare parentheses are left out.  Each such pair leaves the tree as it is. -/
theorem toPostfix_eq_toPostfix_iff {e e' : Phrase .expression} {text text' : String}
    (hs : Spells e.tokens text.toList) (hs' : Spells e'.tokens text'.toList) :
    (toPostfix .standard text = toPostfix .standard text' ↔ e.tree = e'.tree) ∧
      (toPostfix .standard text = toPostfix .standard text' ↔ e.SameButSpare e') ∧
      ∀ d d' : Phrase .expression, d.Spares d' → d.tree = d'.tree ∧
        ∃ x y z, d.tokens = x ++ .sign '(' :: (y ++ .sign ')' :: z) ∧
          d'.tokens = x ++ y ++ z := by
  have htree : toPostfix .standard text = toPostfix .standard text' ↔ e.tree = e'.tree := by
    rw [toPostfix_eq_ok_spaced_iff.mpr (e.convert_eq hs),
      toPostfix_eq_ok_spaced_iff.mpr (e'.convert_eq hs')]
    constructor
    · intro h
      have hpostorder : [] ++ e.tree.postorder = [] ++ e'.tree.postorder :=
        spaced_injective (String.ofList_injective (Except.ok.inj h))
      exact (Tree.append_postorder_inj e.isOperandChar_eq_false_of_mem_operators
        e'.isOperandChar_eq_false_of_mem_operators hpostorder).2
    · exact fun h ↦ congrArg (fun s ↦ Except.ok (String.ofList (spaced s.postorder))) h
  exact ⟨htree, htree.trans Phrase.tree_eq_iff_sameButSpare,
    fun d d' h ↦ ⟨h.tree_eq, h.exists_tokens⟩⟩

def Numeral.zeroThree : Numeral :=
  ⟨['0', '3'], by decide, List.all_eq_true.mp (by decide)⟩

namespace Phrase

/-- `1+2`. -/
def sum : Phrase .expression :=
  .apply (.single (.number (.ofNat 1))) .add (.number (.ofNat 2))

/-- `1+2*03`. -/
def bareProduct : Phrase .expression :=
  .apply sum .multiply (.number .zeroThree)

/-- `((1+2))*(03)`. -/
def enclosedProduct : Phrase .expression :=
  .apply (.single (.group (.single (.group sum)))) .multiply
    (.group (.single (.number .zeroThree)))

end Phrase

/-- Three pairs of parentheses, none of which is needed. -/
theorem toPostfix_enclosedProduct :
    Spells Phrase.enclosedProduct.tokens "((1 +2))* (03)".toList ∧
      Spells Phrase.bareProduct.tokens "1+2*03".toList ∧
      toPostfix .standard "((1 +2))* (03)" = toPostfix .standard "1+2*03" ∧
      Phrase.enclosedProduct.SameButSpare Phrase.bareProduct := by
  have htokens : tokens "((1 +2))* (03)".toList = Phrase.enclosedProduct.tokens := by decide
  have htokens' : tokens "1+2*03".toList = Phrase.bareProduct.tokens := by decide
  have hs : Spells Phrase.enclosedProduct.tokens "((1 +2))* (03)".toList :=
    htokens ▸ spells_tokens _
  have hs' : Spells Phrase.bareProduct.tokens "1+2*03".toList := htokens' ▸ spells_tokens _
  obtain ⟨htree, hsame, -⟩ := toPostfix_eq_toPostfix_iff hs hs'
  have hpostfix := htree.mpr rfl
  exact ⟨hs, hs', hpostfix, hsame.mp hpostfix⟩

/-- Parentheses around what follows an operator are needed, and a leading zero counts. -/
example : toPostfix .standard "1+2*03" ≠ toPostfix .standard "1+(2*03)" ∧
    toPostfix .standard "1+2*03" ≠ toPostfix .standard "1+2*3" := by
  decide

end Infix
end Reckoner
