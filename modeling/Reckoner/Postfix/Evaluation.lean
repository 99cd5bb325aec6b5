import Reckoner.Infix.Marking
import Reckoner.Operator.Operation
import Reckoner.Stack.Basic
import Reckoner.Text.Quoted
import Reckoner.Decimal.Numeral

/-!
# Evaluating a postfix stream

A stream is read one character at a time, blanks skipped.  A marker opens an operand,
which collects everything up to the next marker, operator or end; outside an operand a
digit is a number by itself and anything unknown is ignored.  An operator replaces the
two topmost values by its result.
-/

namespace Reckoner
namespace Postfix

open Text Infix

inductive EvaluationError where
  | invalidExpression
  | invalidOperand (text : String)
  | remainingOperands (stream : String) (values : List Binary64)
deriving DecidableEq

def EvaluationError.message : EvaluationError → String
  | invalidExpression => "Invalid Expression"
  | invalidOperand text => "Invalid operand: " ++ quote text
  | remainingOperands stream values =>
    "Invalid expression (remaining operands): " ++ stream ++ ", stack: " ++
      ", ".intercalate (values.map Binary64.sixDigitText)

/-- The number that an operand denotes: its text has to be a run of ASCII digits. -/
def operandValue (text : List Char) : Except EvaluationError Binary64 :=
  if text = [] then .error .invalidExpression
  else if text.all Char.isDigit then .ok (.ofNat (Nat.ofDigitChars 10 text 0))
  else .error (.invalidOperand (String.ofList text))

/-- An evaluation under way: the values so far, and the text of the open operand. -/
structure Machine where
  values : Stack Binary64
  operand? : Option (Array Char)
deriving DecidableEq

namespace Machine

def start : Machine := ⟨.empty, none⟩

/-- The values once the open operand has been closed by an operator, for which even an
operand without text has to be a number. -/
def close (m : Machine) : Except EvaluationError (Stack Binary64) :=
  match m.operand? with
  | none => .ok m.values
  | some text => (operandValue text.toList).map m.values.push

/-- The values once the open operand has been closed by a marker or by the end, either
of which drops an operand without text. -/
def settle (m : Machine) : Except EvaluationError (Stack Binary64) :=
  if m.operand? = some #[] then .ok m.values else m.close

/-- The right operand is on top, the left one below it. -/
def combine (op : Operation) (values : Stack Binary64) :
    Except EvaluationError (Stack Binary64) :=
  match values.items with
  | b :: a :: rest => .ok ⟨op.apply a b :: rest⟩
  | _ => .error .invalidExpression

/-- Whether `c` has no meaning here and is passed over. -/
def ignores (m : Machine) (c : Char) : Bool :=
  m.operand?.isNone && !isBlank c && c != marker && (Operation.ofSymbol? c).isNone &&
    !c.isDigit

def step (m : Machine) (c : Char) : Except EvaluationError Machine :=
  if isBlank c then .ok m
  else if c = marker then m.settle.map fun values ↦ ⟨values, some #[]⟩
  else
    match Operation.ofSymbol? c, m.operand? with
    | some op, _ => (m.close >>= combine op).map fun values ↦ ⟨values, none⟩
    | none, some text => .ok { m with operand? := some (text.push c) }
    | none, none =>
      if c.isDigit then (operandValue [c]).map fun value ↦ ⟨m.values.push value, none⟩
      else .ok m

def run (m : Machine) (stream : List Char) : Except EvaluationError Machine :=
  stream.foldlM step m

@[simp] theorem run_nil (m : Machine) : m.run [] = .ok m := rfl

@[simp] theorem run_cons (m : Machine) (c : Char) (rest : List Char) :
    m.run (c :: rest) = m.step c >>= fun next ↦ next.run rest := by
  simp [run]

theorem run_append (m : Machine) (x y : List Char) :
    m.run (x ++ y) = m.run x >>= fun next ↦ next.run y := by
  simp [run]

end Machine

/-- The one value that is left, or none. -/
def answer (stream : String) (values : Stack Binary64) : Except EvaluationError Binary64 :=
  match values.items with
  | [] => .ok .nan
  | [value] => .ok value
  | _ => .error (.remainingOperands stream values.toList)

/-- The value of a stream, `nan` if it holds no value at all. -/
def evaluate (stream : String) : Except EvaluationError Binary64 := do
  let last ← Machine.start.run stream.toList
  let values ← last.settle
  answer stream values

/-- The characters that the evaluation of a stream passes over, up to its end or to the
first error. -/
def ignored (stream : String) : List Char :=
  let note (state : Except EvaluationError Machine × Array Char) (c : Char) :=
    match state.1 with
    | .error _ => state
    | .ok m => (m.step c, if m.ignores c then state.2.push c else state.2)
  (stream.toList.foldl note (.ok .start, #[])).2.toList

end Postfix
end Reckoner
