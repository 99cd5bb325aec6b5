import Reckoner.Infix.Conversion
import Reckoner.Postfix.Evaluation

/-!
# Outcomes

Every expression has an outcome, whatever it holds: a value, or the message of the
failure that kept it from having one.  That no number results, as in `0/0`, is a
failure too.
-/

namespace Reckoner

/-- Why an expression has no value. -/
inductive Failure where
  | unreadable (cause : Infix.SyntaxError)
  | unevaluable (cause : Postfix.EvaluationError)
  | notANumber
deriving DecidableEq

def Failure.message : Failure → String
  | unreadable cause => cause.message
  | unevaluable cause => cause.message
  | notANumber => "Invalid Expression"

/-- The value of an expression under the calculator's own operators. -/
def valueOf (expression : String) : Except Failure Binary64 := do
  let stream ← (Infix.toPostfix .standard expression).mapError .unreadable
  let value ← (Postfix.evaluate stream).mapError .unevaluable
  if value.isNan then .error .notANumber else .ok value

structure Outcome where
  success : Bool
  value : Binary64
  message : String
deriving DecidableEq

namespace Outcome

def succeeded (value : Binary64) : Outcome :=
  ⟨true, value, ""⟩

/-- A failure has the value zero. -/
def failed (message : String) : Outcome :=
  ⟨false, .zero, message⟩

def ofResult : Except Failure Binary64 → Outcome
  | .ok value => succeeded value
  | .error failure => failed failure.message

end Outcome

def outcomeOf (expression : String) : Outcome :=
  .ofResult (valueOf expression)

theorem success_outcomeOf_iff (expression : String) :
    (outcomeOf expression).success = true ↔ ∃ value, valueOf expression = .ok value := by
  unfold outcomeOf
  cases valueOf expression <;> simp [Outcome.ofResult, Outcome.succeeded, Outcome.failed]

end Reckoner
