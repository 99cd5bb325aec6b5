/-!
# Operator tables

A binary operator is one character.  A table says which characters are operators and
gives each a fixity: a precedence, which may be any whole number, and the direction in
which operators of one precedence group.
-/

namespace Reckoner

inductive Associativity where
  | left
  | right
deriving DecidableEq

/-- How tightly an operator binds, and to which side it groups. -/
structure Fixity where
  precedence : Int
  associativity : Associativity
deriving DecidableEq

/-- The fixity of every character that is an operator. -/
abbrev OperatorTable := Char → Option Fixity

/-- Whether a waiting operator is applied before a new one: it binds more tightly, or
as tightly and the new one groups to the left. -/
def Fixity.yieldsTo (waiting new : Fixity) : Bool :=
  match new.associativity with
  | .left => decide (new.precedence ≤ waiting.precedence)
  | .right => decide (new.precedence < waiting.precedence)

theorem Fixity.yieldsTo_eq_true_iff (waiting new : Fixity) :
    waiting.yieldsTo new = true ↔
      new.precedence < waiting.precedence ∨
        new.precedence = waiting.precedence ∧ new.associativity = .left := by
  unfold yieldsTo
  cases new.associativity with
  | left =>
    simp only [decide_eq_true_eq, and_true]
    omega
  | right => simp

/-- A token that was looked up and is no operator. -/
structure UnknownOperator where
  token : String
deriving DecidableEq

namespace OperatorTable

/-- The table with one entry added or replaced. -/
def insert (t : OperatorTable) (c : Char) (f : Fixity) : OperatorTable :=
  fun d ↦ if d = c then some f else t d

@[simp] theorem insert_self (t : OperatorTable) (c : Char) (f : Fixity) :
    t.insert c f c = some f := by
  simp [insert]

theorem insert_of_ne (t : OperatorTable) {c d : Char} (f : Fixity) (h : d ≠ c) :
    t.insert c f d = t d := by
  simp [insert, h]

def contains (t : OperatorTable) (c : Char) : Bool :=
  (t c).isSome

/-- Whether `top`, on a stack of waiting operators and parentheses, leaves it before an
operator of fixity `new` is pushed.  What is no operator stays. -/
def releases (t : OperatorTable) (new : Fixity) (top : Char) : Bool :=
  match t top with
  | some waiting => waiting.yieldsTo new
  | none => false

/-- The fixity of a token; only a token of one character can have one. -/
def fixity? (t : OperatorTable) (token : String) : Option Fixity :=
  match token.toList with
  | [c] => t c
  | _ => none

def isOperator (t : OperatorTable) (token : String) : Bool :=
  (t.fixity? token).isSome

def fixity (t : OperatorTable) (token : String) : Except UnknownOperator Fixity :=
  match t.fixity? token with
  | some f => .ok f
  | none => .error ⟨token⟩

/-- `releases` for tokens.  A `top` that is no operator is not asked further, so only
then may `current` be no operator either. -/
def shouldPop (t : OperatorTable) (current top : String) : Except UnknownOperator Bool :=
  match t.fixity? top with
  | none => .ok false
  | some waiting => (t.fixity current).map waiting.yieldsTo

end OperatorTable
end Reckoner
