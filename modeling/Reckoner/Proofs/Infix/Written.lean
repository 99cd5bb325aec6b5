import Reckoner.Proofs.Infix.Responses

/-!
# Trees and how they are written

`Tree` is what an expression means to a converter: numbers and binary operators.
`Written` is a tree as it stands in a text, with its parentheses.  Under an operator
table, a written tree is legible if every operand that stands without parentheses may
do so: on the left of an operator one that binds more tightly, or as tightly if the
operator groups to the left; on the right one that binds more tightly, or as tightly if
it groups to the right itself.  Further parentheses may stand anywhere.
-/

namespace Reckoner
namespace Infix

open Text

structure Numeral where
  digits : List Char
  digits_ne_nil : digits ≠ []
  isDigit_of_mem : ∀ c ∈ digits, c.isDigit = true

def Numeral.ofNat (n : Nat) : Numeral where
  digits := Nat.toDigits 10 n
  digits_ne_nil := Nat.toDigits_ne_nil
  isDigit_of_mem _ hc := Nat.isDigit_of_mem_toDigits (by decide) (by decide) hc

inductive Tree where
  | leaf (n : Numeral)
  | node (op : Char) (left right : Tree)

inductive Written where
  | number (n : Numeral)
  | binary (op : Char) (left right : Written)
  | group (e : Written)

namespace Tree

/-- Both operands come before their operator, and a marker before a number. -/
def postorder : Tree → List Char
  | leaf n => marker :: n.digits
  | node op left right => left.postorder ++ right.postorder ++ [op]

def operators : Tree → List Char
  | leaf _ => []
  | node op left right => op :: (left.operators ++ right.operators)

end Tree

/-- Whether `child` may stand as a left operand without parentheses. -/
def BareLeft (child parent : Fixity) : Prop :=
  parent.precedence < child.precedence ∨
    child.precedence = parent.precedence ∧ parent.associativity = .left

/-- Whether `child` may stand as a right operand without parentheses. -/
def BareRight (child parent : Fixity) : Prop :=
  parent.precedence < child.precedence ∨
    child.precedence = parent.precedence ∧ child.associativity = .right

instance (child parent : Fixity) : Decidable (BareLeft child parent) :=
  inferInstanceAs (Decidable (_ ∨ _))

instance (child parent : Fixity) : Decidable (BareRight child parent) :=
  inferInstanceAs (Decidable (_ ∨ _))

namespace Written

def tree : Written → Tree
  | number n => .leaf n
  | binary op left right => .node op left.tree right.tree
  | group e => e.tree

def tokens : Written → List Token
  | number n => [.word n.digits]
  | binary op left right => left.tokens ++ .sign op :: right.tokens
  | group e => .sign '(' :: e.tokens ++ [.sign ')']

/-- The operator that stands without parentheses around it. -/
def root? : Written → Option Char
  | binary op _ _ => some op
  | _ => none

/-- Every pair of parentheses that the tree needs under `t` is written. -/
inductive Legible (t : OperatorTable) : Written → Prop
  | number (n : Numeral) : Legible t (.number n)
  | binary {op : Char} {f : Fixity} {left right : Written} (hop : t op = some f)
      (hleft : left.Legible t) (hright : right.Legible t)
      (hbareLeft : ∀ p g, left.root? = some p → t p = some g → BareLeft g f)
      (hbareRight : ∀ p g, right.root? = some p → t p = some g → BareRight g f) :
      Legible t (.binary op left right)
  | group {e : Written} (he : e.Legible t) : Legible t (.group e)

end Written

/-! ## Writing a tree -/

/-- Parentheses around `e` unless it is a number or `bare` holds of its root. -/
def Written.enclosedUnless (e : Written) (bare : Char → Bool) : Written :=
  if e.root?.all bare then e else .group e

/-- The tree with no parentheses but those it needs. -/
def Tree.written (t : OperatorTable) : Tree → Written
  | .leaf n => .number n
  | .node op left right =>
    .binary op
      ((left.written t).enclosedUnless fun p ↦ ∃ g ∈ t p, ∃ f ∈ t op, BareLeft g f)
      ((right.written t).enclosedUnless fun p ↦ ∃ g ∈ t p, ∃ f ∈ t op, BareRight g f)

theorem Written.tree_enclosedUnless (e : Written) (bare : Char → Bool) :
    (e.enclosedUnless bare).tree = e.tree := by
  unfold enclosedUnless
  split <;> rfl

theorem Written.root?_enclosedUnless {e : Written} {bare : Char → Bool} {p : Char}
    (h : (e.enclosedUnless bare).root? = some p) : bare p = true := by
  unfold enclosedUnless at h
  split at h
  · next hall => simpa [h] using hall
  · simp [root?] at h

theorem Written.Legible.enclosedUnless {t : OperatorTable} {e : Written}
    (h : e.Legible t) (bare : Char → Bool) : (e.enclosedUnless bare).Legible t := by
  unfold Written.enclosedUnless
  split
  · exact h
  · exact .group h

theorem Tree.tree_written (t : OperatorTable) (tree : Tree) :
    (tree.written t).tree = tree := by
  induction tree with
  | leaf n => rfl
  | node op left right ihleft ihright =>
      simp only [written, Written.tree, Written.tree_enclosedUnless, ihleft, ihright]

theorem Tree.legible_written {t : OperatorTable} {tree : Tree}
    (h : ∀ op ∈ tree.operators, t.contains op = true) : (tree.written t).Legible t := by
  induction tree with
  | leaf n => exact .number n
  | node op left right ihleft ihright =>
      obtain ⟨f, hf⟩ := Option.isSome_iff_exists.mp (h op List.mem_cons_self)
      have hl := ihleft fun c hc ↦ h c (by simp [operators, hc])
      have hr := ihright fun c hc ↦ h c (by simp [operators, hc])
      refine .binary hf (hl.enclosedUnless _) (hr.enclosedUnless _) ?_ ?_
      · intro p g hp hg
        have hbare := Written.root?_enclosedUnless hp
        simpa [hg, hf] using hbare
      · intro p g hp hg
        have hbare := Written.root?_enclosedUnless hp
        simpa [hg, hf] using hbare

end Infix
end Reckoner
