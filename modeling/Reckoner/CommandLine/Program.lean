import Reckoner.CommandLine.Usage
import Reckoner.Log.Logger

/-!
# The program

The program evaluates all expressions and logs what happens, then prints every result,
values on the one stream and failures on the other.  Its status is one if any expression
failed.
-/

namespace Reckoner
namespace CommandLine

open Log

/-- One line that is written: to the output, to the errors, or to the errors as an event,
which gets its time when it is written. -/
inductive Entry where
  | output (line : String)
  | error (line : String)
  | event (e : Event)
deriving DecidableEq

namespace Entry

def output? : Entry → Option String
  | output line => some line
  | error _ | event _ => none

def error? (stamp : String) : Entry → Option String
  | output _ => none
  | error line => some line
  | event e => some (e.line stamp)

end Entry

/-- All that is written, in order. -/
abbrev Transcript := List Entry

namespace Transcript

/-- The lines of the output. -/
def outputLines (t : Transcript) : List String :=
  t.filterMap Entry.output?

/-- The lines of the errors. -/
def errorLines (stamp : String) (t : Transcript) : List String :=
  t.filterMap (Entry.error? stamp)

end Transcript

/-- What a logger writes about `events`. -/
def logged (l : Logger) (events : List Event) : Transcript :=
  (l.written events).map .event

/-- A value goes to the output, the message of a failure to the errors. -/
def Entry.ofOutcome (o : Outcome) : Entry :=
  if o.success then output o.value.resultText else error ("error: " ++ o.message)

/-- How a run ends: with a status, by leaving early, or because the level asked for was
refused. -/
inductive Ending where
  | status (code : Nat)
  | left (code : Nat)
  | refused (refusal : Refusal)
deriving DecidableEq

def statusOf (outcomes : List Outcome) : Nat :=
  if outcomes.all Outcome.success then 0 else 1

/-- What is written about the expressions under a logger that has been configured. -/
def report (l : Logger) (expressions : List String) : Transcript :=
  let outcomes := expressions.map outcomeOf
  logged l (expressions.flatMap outcomeEvents) ++ outcomes.map .ofOutcome ++
    logged l [.exiting (statusOf outcomes)]

/-- One run of the program: the logger that it leaves, what is written, how it ends. -/
def run (l : Logger) (setting? : Option String) (arguments : List String) :
    Logger × Transcript × Ending :=
  match Request.ofArguments arguments with
  | .help => (l, helpLines.map .output, .left 0)
  | .refuse cause => (l, cause.lines.map .error, .left 2)
  | .run arguments =>
    match l.configure setting? arguments.verbose with
    | (configured, .error refusal) => (configured, [], .refused refusal)
    | (configured, .ok ()) =>
      (configured, report configured arguments.expressions,
        .status (statusOf (arguments.expressions.map outcomeOf)))

end CommandLine
end Reckoner
