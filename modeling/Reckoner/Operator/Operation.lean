import Reckoner.Operator.Table
import Reckoner.Binary64.Arithmetic

/-!
# The four operations

The operations of the calculator and the symbols that stand for them.  They share one
precedence and group to the left, so an expression is read strictly from left to right:
`2+3*4` is twenty.
-/

namespace Reckoner

inductive Operation where
  | add
  | subtract
  | multiply
  | divide
deriving DecidableEq

namespace Operation

def symbol : Operation → Char
  | add => '+'
  | subtract => '-'
  | multiply => '*'
  | divide => '/'

def ofSymbol? (c : Char) : Option Operation :=
  if c = '+' then some add
  else if c = '-' then some subtract
  else if c = '*' then some multiply
  else if c = '/' then some divide
  else none

@[simp] theorem ofSymbol?_symbol (op : Operation) : ofSymbol? op.symbol = some op := by
  cases op <;> decide

theorem ofSymbol?_eq_some_iff {c : Char} {op : Operation} :
    ofSymbol? c = some op ↔ c = op.symbol := by
  constructor
  · intro h
    unfold ofSymbol? at h
    grind [Operation.symbol]
  · rintro rfl
    exact ofSymbol?_symbol op

def apply : Operation → Binary64 → Binary64 → Binary64
  | add => .add
  | subtract => .sub
  | multiply => .mul
  | divide => .div

/-- The operation that a token stands for. -/
def ofToken (token : String) : Except UnknownOperator Operation :=
  match token.toList with
  | [c] =>
    match ofSymbol? c with
    | some op => .ok op
    | none => .error ⟨token⟩
  | _ => .error ⟨token⟩

end Operation

/-- The fixity of all four operations. -/
def Fixity.leftToRight : Fixity :=
  ⟨1, .left⟩

/-- The calculator's own operators. -/
def OperatorTable.standard : OperatorTable :=
  fun c ↦ (Operation.ofSymbol? c).map fun _ ↦ .leftToRight

end Reckoner
