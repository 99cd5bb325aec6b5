import Reckoner.Log.Event

/-!
# The logger

The logger starts without a handler and writes nothing.  Configuring it attaches one
handler, however often it is done, and fixes the level below which events are dropped.
-/

namespace Reckoner
namespace Log

structure Logger where
  level : Level
  /-- How many handlers write each event. -/
  handlers : Nat
  /-- Whether events are also passed to the root logger, which has no handler and shows
  nothing below a warning. -/
  propagates : Bool
deriving DecidableEq

namespace Logger

def initial : Logger :=
  ⟨.notSet, 0, true⟩

/-- A handler is attached unless there is one, and nothing is passed on any more. -/
def attach (l : Logger) : Logger :=
  { l with handlers := if l.handlers = 0 then 1 else l.handlers, propagates := false }

/-- The level asked for: `verbose` wins over the value of the variable. -/
def requestedLevel (setting? : Option String) (verbose : Bool) : Except Refusal Level :=
  if verbose then .ok .debug else Level.ofSetting (setting?.getD "INFO")

/-- The logger after it has been configured.  A refusal leaves the level as it was. -/
def configure (l : Logger) (setting? : Option String) (verbose : Bool) :
    Logger × Except Refusal Unit :=
  match requestedLevel setting? verbose with
  | .ok level => ({ l.attach with level := level }, .ok ())
  | .error refusal => (l.attach, .error refusal)

/-- A logger whose own level is not set has that of the root logger. -/
def effectiveLevel (l : Logger) : Level :=
  if l.level = .notSet then .warning else l.level

def enabled (l : Logger) (e : Event) : Bool :=
  decide (l.effectiveLevel.number ≤ e.level.number)

/-- The events that are written, once by every handler. -/
def written (l : Logger) (events : List Event) : List Event :=
  (events.filter l.enabled).flatMap (List.replicate l.handlers)

@[simp] theorem written_append (l : Logger) (xs ys : List Event) :
    l.written (xs ++ ys) = l.written xs ++ l.written ys := by
  simp [written]

@[simp] theorem written_initial (events : List Event) : initial.written events = [] := by
  simp [written, initial]

end Logger

end Log
end Reckoner
