import Reckoner.CommandLine.Program

/-!
# Sessions

A session is a sequence of commands that share one logger and one variable, from which
the level is read whenever the logger is configured.
-/

namespace Reckoner

open Log CommandLine

structure Session where
  /-- The value of the variable that names the level, if it is set. -/
  setting? : Option String
  logger : Logger
deriving DecidableEq

namespace Session

inductive Command where
  | setVariable (value? : Option String)
  | configure (verbose : Bool)
  | evaluate (expression : String)
  | convert (expression : String)
  | evaluateStream (stream : String)
  | run (arguments : List String)
deriving DecidableEq

inductive Answer where
  | done
  | configured (result : Except Refusal Unit)
  | outcome (o : Outcome)
  | stream (result : Except Infix.SyntaxError String)
  | value (result : Except Postfix.EvaluationError Binary64)
  | ended (ending : Ending)

def start : Session := ⟨none, .initial⟩

/-- The session after a command, the answer, and what is written meanwhile. -/
def step (s : Session) : Command → Session × Answer × Transcript
  | .setVariable value? => ({ s with setting? := value? }, .done, [])
  | .configure verbose =>
    let (logger, result) := s.logger.configure s.setting? verbose
    ({ s with logger := logger }, .configured result, [])
  | .evaluate expression =>
    (s, .outcome (outcomeOf expression), logged s.logger (outcomeEvents expression))
  | .convert expression =>
    (s, .stream (Infix.toPostfix .standard expression),
      logged s.logger (conversionEvents expression))
  | .evaluateStream stream =>
    (s, .value (Postfix.evaluate stream), logged s.logger (evaluationEvents stream))
  | .run arguments =>
    let (logger, written, ending) := CommandLine.run s.logger s.setting? arguments
    ({ s with logger := logger }, .ended ending, written)

/-- The answers to a sequence of commands, each with what was written and the logger
after it. -/
def answers : Session → List Command → List (Answer × Transcript × Logger)
  | _, [] => []
  | s, command :: rest =>
    let (next, answer, written) := s.step command
    (answer, written, next.logger) :: answers next rest

/-- The session that a sequence of commands leaves. -/
def after (s : Session) (commands : List Command) : Session :=
  commands.foldl (fun t command ↦ (t.step command).1) s

end Session
end Reckoner
