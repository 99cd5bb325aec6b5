import Reckoner.Infix.Marking
import Reckoner.Operator.Table
import Reckoner.Stack.Basic

/-!
# From infix to postfix

A marked expression is read from left to right.  Digits and markers are released at
once.  Operators and opening parentheses wait on a stack: a new operator first releases
those that the table lets go before it, a closing parenthesis releases those of its
group, and the end releases the rest.
-/

namespace Reckoner
namespace Infix

inductive SyntaxError where
  | mismatchedParentheses
  | unknownToken (c : Char)
deriving DecidableEq

def SyntaxError.message : SyntaxError → String
  | mismatchedParentheses => "Parentheses mismatched"
  | unknownToken c => "Unknown token: " ++ String.singleton c

/-- What goes to the output as it is read. -/
def isOperandChar (c : Char) : Bool :=
  c.isDigit || c == marker

def isParenthesis (c : Char) : Bool :=
  c == '(' || c == ')'

/-- What the end of the innermost group releases, and what waits after it. -/
def closeGroup (pending : Stack Char) : Except SyntaxError (List Char × Stack Char) :=
  let (leaving, staying) := pending.popWhile (· != '(')
  match staying.pop? with
  | some (_, outer) => .ok (leaving, outer)
  | none => .error .mismatchedParentheses

/-- What one character releases, given what waits, and what waits after it. -/
def respond (t : OperatorTable) (pending : Stack Char) (c : Char) :
    Except SyntaxError (List Char × Stack Char) :=
  if Text.isBlank c then .ok ([], pending)
  else if isOperandChar c then .ok ([c], pending)
  else
    match t c with
    | some fixity =>
      let (leaving, staying) := pending.popWhile (t.releases fixity)
      .ok (leaving, staying.push c)
    | none =>
      if c = '(' then .ok ([], pending.push c)
      else if c = ')' then closeGroup pending
      else .error (.unknownToken c)

/-- A conversion under way: what has been released, in order, and what waits. -/
structure Scan where
  released : Array Char
  pending : Stack Char
deriving DecidableEq

namespace Scan

def start : Scan := ⟨#[], .empty⟩

def step (t : OperatorTable) (s : Scan) (c : Char) : Except SyntaxError Scan :=
  (respond t s.pending c).map fun (now, pending) ↦ ⟨s.released ++ now, pending⟩

def run (t : OperatorTable) (s : Scan) (marked : List Char) : Except SyntaxError Scan :=
  marked.foldlM (step t) s

@[simp] theorem run_nil (t : OperatorTable) (s : Scan) : s.run t [] = .ok s := rfl

@[simp] theorem run_cons (t : OperatorTable) (s : Scan) (c : Char) (rest : List Char) :
    s.run t (c :: rest) = s.step t c >>= fun next ↦ next.run t rest := by
  simp [run]

theorem run_append (t : OperatorTable) (s : Scan) (x y : List Char) :
    s.run t (x ++ y) = s.run t x >>= fun next ↦ next.run t y := by
  simp [run]

/-- Everything released, unless a parenthesis still waits. -/
def finish (s : Scan) : Except SyntaxError (List Char) :=
  if s.pending.items.any isParenthesis then .error .mismatchedParentheses
  else .ok (s.released.toList ++ s.pending.items)

end Scan

/-- The characters of the postfix form, without the spaces between them. -/
def convertMarked (t : OperatorTable) (marked : List Char) : Except SyntaxError (List Char) :=
  Scan.start.run t marked >>= Scan.finish

def convert (t : OperatorTable) (text : List Char) : Except SyntaxError (List Char) :=
  convertMarked t (markChars text)

/-- One space between any two characters. -/
def spaced (chars : List Char) : List Char :=
  chars.intersperse ' '

/-- The postfix form of `text`: a stream of single characters, numbers as a marker and
their digits. -/
def toPostfix (t : OperatorTable) (text : String) : Except SyntaxError String :=
  (convert t text.toList).map fun chars ↦ String.ofList (spaced chars)

end Infix
end Reckoner
