import Reckoner.Log.Level
import Reckoner.Outcome.Basic

/-!
# Log events

What there is to report, and which events each operation reports.  The events of an
operation are a function of what it is given, so reporting cannot change a result.
-/

namespace Reckoner
namespace Log

inductive Event where
  | converted (expression stream : String)
  | ignored (c : Char)
  | evaluated (stream : String) (value : Binary64)
  | failed (expression message : String)
  | notANumber (expression : String)
  | exiting (status : Nat)
deriving DecidableEq

namespace Event

/-- Only what makes an expression fail is more than detail. -/
def level : Event → Level
  | failed _ _ | notANumber _ => .info
  | _ => .debug

def message : Event → String
  | converted expression stream =>
    "Converted " ++ Text.quote expression ++ " to postfix " ++ Text.quote stream
  | ignored c =>
    "Ignoring stray character " ++ Text.quote (String.singleton c) ++ " in postfix stream"
  | evaluated stream value =>
    "Evaluated postfix " ++ Text.quote stream ++ " to " ++ value.shortestText
  | failed expression message =>
    "Could not evaluate " ++ Text.quote expression ++ ": " ++ message
  | notANumber expression => "Expression " ++ Text.quote expression ++ " is not a number"
  | exiting status => "Exiting with status " ++ String.ofList (wholeText status)

/-- The line of an event; `stamp` is its time. -/
def line (stamp : String) (e : Event) : String :=
  stamp ++ " - " ++ e.level.name ++ " - infix_calculator - " ++ e.message

end Event

def conversionEvents (expression : String) : List Event :=
  match Infix.toPostfix .standard expression with
  | .ok stream => [.converted expression stream]
  | .error _ => []

def evaluationEvents (stream : String) : List Event :=
  (Postfix.ignored stream).map .ignored ++
    match Postfix.evaluate stream with
    | .ok value => [.evaluated stream value]
    | .error _ => []

/-- The events of the stages that are reached, and then that of the failure. -/
def outcomeEvents (expression : String) : List Event :=
  conversionEvents expression ++
    (match Infix.toPostfix .standard expression with
      | .ok stream => evaluationEvents stream
      | .error _ => []) ++
    match valueOf expression with
    | .ok _ => []
    | .error .notANumber => [.notANumber expression]
    | .error failure => [.failed expression failure.message]

end Log
end Reckoner
