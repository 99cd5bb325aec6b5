import Reckoner.Session
import Reckoner.Proofs.CommandLine.Transcripts
import Mathlib.Data.List.Induction

/-!
# The logger of a session

Of the commands of a session only those that configure the logger change it: the command
that does nothing else, and a run whose arguments are accepted.  After the first of them
the logger has one handler and passes nothing on, and its level is that of the latest one
that was not refused.  Every event that the level shows is written once, and before the
first call none is.
-/

namespace Reckoner
namespace Session

open Log CommandLine

namespace Command

def settingAfter (setting? : Option String) : Command → Option String
  | setVariable value? => value?
  | configure _ | evaluate _ | convert _ | evaluateStream _ | run _ => setting?

/-- The call to configure the logger that a command makes. -/
def call? (setting? : Option String) : Command → Option Call
  | configure verbose => some ⟨setting?, verbose⟩
  | run arguments => CommandLine.call? setting? arguments
  | setVariable _ | evaluate _ | convert _ | evaluateStream _ => none

/-- What a command has to report, whatever the level. -/
def reports (setting? : Option String) : Command → List Event
  | evaluate expression => outcomeEvents expression
  | convert expression => conversionEvents expression
  | evaluateStream stream => evaluationEvents stream
  | run arguments => if Refuses setting? arguments then [] else reportsOf arguments
  | setVariable _ | configure _ => []

end Command

/-- The calls to configure the logger that a sequence of commands makes. -/
def calls (setting? : Option String) : List Command → List Call
  | [] => []
  | command :: rest =>
    (command.call? setting?).toList ++ calls (command.settingAfter setting?) rest

/-- The level that calls leave: that of the latest one that was not refused. -/
def levelAfter (calls : List Call) : Level :=
  match (calls.filter fun c ↦ ¬c.Refused).getLast? with
  | some c => c.level
  | none => .notSet

def loggerAfter (calls : List Call) : Logger :=
  if calls = [] then .initial else .configured (levelAfter calls)

variable {cs : List Call} {c : Call}

theorem levelAfter_append_of_refused (h : c.Refused) : levelAfter (cs ++ [c]) = levelAfter cs := by
  simp [levelAfter, h]

theorem levelAfter_append_of_not_refused (h : ¬c.Refused) : levelAfter (cs ++ [c]) = c.level := by
  simp [levelAfter, h]

theorem level_loggerAfter (cs : List Call) : (loggerAfter cs).level = levelAfter cs := by
  unfold loggerAfter
  split
  · simp [levelAfter, Logger.initial, *]
  · rfl

theorem handlers_loggerAfter (cs : List Call) :
    (loggerAfter cs).handlers = if cs = [] then 0 else 1 := by
  unfold loggerAfter
  split <;> rfl

theorem handlers_loggerAfter_le_one (cs : List Call) : (loggerAfter cs).handlers ≤ 1 := by
  rw [handlers_loggerAfter]
  split <;> decide

theorem written_loggerAfter (cs : List Call) (events : List Event) :
    (loggerAfter cs).written events =
      if cs = [] then [] else events.filter (loggerAfter cs).level.shows := by
  by_cases hcs : cs = []
  · rw [loggerAfter, if_pos hcs, if_pos hcs, Logger.written_initial]
  · rw [loggerAfter, if_neg hcs, if_neg hcs, Logger.written_configured, Logger.level_configured]

/-- One more call. -/
theorem loggerAfter_append (cs : List Call) (c : Call) :
    loggerAfter (cs ++ [c]) = ((loggerAfter cs).configure c.setting? c.verbose).1 := by
  have hne : cs ++ [c] ≠ [] := List.append_ne_nil_of_right_ne_nil _ (List.cons_ne_nil _ _)
  rw [loggerAfter, if_neg hne]
  by_cases h : c.Refused
  · obtain ⟨refusal, hconfigure⟩ :=
      Logger.configure_of_refused (handlers_loggerAfter_le_one cs) h
    rw [hconfigure, levelAfter_append_of_refused h, level_loggerAfter]
  · rw [Logger.configure_of_not_refused (handlers_loggerAfter_le_one cs) h,
      levelAfter_append_of_not_refused h]

/-! ## What a command does -/

variable {s : Session} {command : Command} {commands : List Command}

/-- What is answered later depends on nothing but the session that was left. -/
theorem answers_append (s : Session) (commands later : List Command) :
    s.answers (commands ++ later) = s.answers commands ++ (s.after commands).answers later := by
  induction commands generalizing s with
  | nil => rfl
  | cons command commands ih =>
      have hnext := ih (s.step command).1
      exact congrArg (_ :: ·) hnext

theorem setting?_step (s : Session) (command : Command) :
    (s.step command).1.setting? = command.settingAfter s.setting? := by
  cases command <;> rfl

theorem logger_step (s : Session) (command : Command) :
    (s.step command).1.logger =
      match command.call? s.setting? with
      | some c => (s.logger.configure c.setting? c.verbose).1
      | none => s.logger := by
  cases command with
  | run arguments => exact logger_run s.logger s.setting? arguments
  | _ => rfl

theorem logger_step_of_no_call (h : command.call? s.setting? = none) :
    (s.step command).1.logger = s.logger := by
  rw [logger_step, h]

theorem after_append (s : Session) (commands : List Command) (command : Command) :
    s.after (commands ++ [command]) = ((s.after commands).step command).1 := by
  simp [after]

theorem calls_append (s : Session) (commands : List Command) (command : Command) :
    calls s.setting? (commands ++ [command]) =
      calls s.setting? commands ++ (command.call? (s.after commands).setting?).toList := by
  -- the first command decides under which value of the variable the others make calls
  induction commands generalizing s with
  | nil => simp [calls, after]
  | cons first commands ih =>
      rw [List.cons_append, calls, calls, ← setting?_step, ih, List.append_assoc]
      rfl

theorem logger_after_start (commands : List Command) :
    (start.after commands).logger = loggerAfter (calls none commands) := by
  induction commands using List.reverseRecOn with
  | nil => rfl
  | append_singleton commands command ih =>
      have hcalls := calls_append start commands command
      rw [after_append, logger_step, ih]
      cases hcall : command.call? (start.after commands).setting? with
      | none =>
          rw [hcall, Option.toList_none, List.append_nil] at hcalls
          exact congrArg loggerAfter hcalls.symm
      | some c =>
          rw [hcall, Option.toList_some] at hcalls
          exact (loggerAfter_append _ c).symm.trans (congrArg loggerAfter hcalls.symm)

theorem handlers_after_start_le_one (commands : List Command) :
    (start.after commands).logger.handlers ≤ 1 := by
  rw [logger_after_start]
  exact handlers_loggerAfter_le_one _

theorem calls_ne_nil_of_call (commands : List Command) (command : Command) {c : Call}
    (h : command.call? (start.after commands).setting? = some c) :
    calls none (commands ++ [command]) ≠ [] := by
  have hcalls := calls_append start commands command
  rw [h, Option.toList_some] at hcalls
  exact fun hnil ↦ List.append_ne_nil_of_right_ne_nil _ (List.cons_ne_nil _ _)
    (hcalls.symm.trans hnil)

theorem calls_append_of_no_call (h : command.call? (start.after commands).setting? = none) :
    calls none (commands ++ [command]) = calls none commands := by
  have hcalls := calls_append start commands command
  rwa [h, Option.toList_none, List.append_nil] at hcalls

theorem events_logged (l : Logger) (events : List Event) :
    (logged l events).events = l.written events :=
  Transcript.events_map_event _

/-- A command that is no run logs its reports under the logger as it was. -/
theorem written_step (s : Session) (h : ∀ arguments, command ≠ .run arguments) :
    (s.step command).2.2 = logged s.logger (command.reports s.setting?) := by
  cases command with
  | run arguments => exact absurd rfl (h arguments)
  | _ => rfl

theorem events_step_of_no_call (h : ∀ arguments, command ≠ .run arguments)
    (hcall : command.call? (start.after commands).setting? = none) :
    ((start.after commands).step command).2.2.events =
      if calls none (commands ++ [command]) = [] then [] else
        (command.reports (start.after commands).setting?).filter
          ((start.after commands).step command).1.logger.level.shows := by
  rw [written_step _ h, events_logged, logger_step_of_no_call hcall,
    calls_append_of_no_call hcall, logger_after_start, written_loggerAfter]

/-- What a command logs: of its reports, those that the level shows, once there is a
handler. -/
theorem events_step (commands : List Command) (command : Command) :
    ((start.after commands).step command).2.2.events =
      if calls none (commands ++ [command]) = [] then [] else
        (command.reports (start.after commands).setting?).filter
          ((start.after commands).step command).1.logger.level.shows := by
  cases command with
  | setVariable value? => exact events_step_of_no_call (fun _ ↦ nofun) rfl
  | configure verbose => exact (ite_self _).symm
  | evaluate expression => exact events_step_of_no_call (fun _ ↦ nofun) rfl
  | convert expression => exact events_step_of_no_call (fun _ ↦ nofun) rfl
  | evaluateStream stream => exact events_step_of_no_call (fun _ ↦ nofun) rfl
  | run arguments =>
      have hhandlers := handlers_after_start_le_one commands
      by_cases hrefuses : Refuses (start.after commands).setting? arguments
      · obtain ⟨refusal, hrun⟩ := run_of_refuses hhandlers hrefuses
        simp only [step, Command.reports, hrun, if_pos hrefuses, List.filter_nil, ite_self]
        rfl
      · obtain ⟨-, hevents, -⟩ := run_of_not_refuses hhandlers hrefuses
        simp only [Command.reports, if_neg hrefuses]
        change (run _ _ arguments).2.1.events = if _ then [] else
          (reportsOf arguments).filter (run _ _ arguments).1.level.shows
        rw [hevents]
        cases hcall : CommandLine.call? (start.after commands).setting? arguments with
        | some c => rw [if_neg (calls_ne_nil_of_call commands (.run arguments) hcall)]
        | none =>
            -- there may have been no call yet, but such a run has nothing to report
            have hreports : reportsOf arguments = [] := by
              unfold CommandLine.call? at hcall
              unfold reportsOf
              cases hrequest : Request.ofArguments arguments with
              | run a => simp [hrequest] at hcall
              | help => rfl
              | refuse cause => rfl
            rw [hreports, List.filter_nil, ite_self]

/-- Whatever a session has done, its logger has one handler and passes nothing on if it was
configured, and none otherwise.  Its level is that of the latest call, unless this was
refused: then it stays as it was, which agrees with the level of the call, `info`, only by
chance.  A command logs each of its reports that the level shows once, and nothing before
the first call; one that makes no call leaves the logger alone. -/
theorem logger_of_session (commands : List Command) :
    let earlier := calls none commands
    let s := start.after commands
    s.logger.handlers = (if earlier = [] then 0 else 1) ∧
    (s.logger.propagates = true ↔ earlier = []) ∧
    (earlier = [] → s.logger.level.number = 0) ∧
    (∀ others c, earlier = others ++ [c] →
      s.logger.level = (if c.Refused then levelAfter others else c.level) ∧
        (s.logger.level = c.level ↔ ¬c.Refused ∨ levelAfter others = .info)) ∧
    ∀ command : Command,
      (s.step command).2.2.events =
        (if calls none (commands ++ [command]) = [] then [] else
          (command.reports s.setting?).filter (s.step command).1.logger.level.shows) ∧
      (command.call? s.setting? = none → (s.step command).1.logger = s.logger) := by
  intro earlier s
  have hlogger : s.logger = loggerAfter earlier := logger_after_start commands
  refine ⟨?_, ?_, ?_, ?_, fun command ↦ ⟨events_step commands command, logger_step_of_no_call⟩⟩
  · rw [hlogger, handlers_loggerAfter]
  · rw [hlogger, loggerAfter]
    split <;> simp [Logger.initial, Logger.configured, *]
  · intro hnone
    rw [hlogger, hnone]
    rfl
  · intro others c hlast
    rw [hlogger, level_loggerAfter, hlast]
    by_cases h : c.Refused
    · rw [levelAfter_append_of_refused h, if_pos h, h.level_eq]
      exact ⟨rfl, by simp [h]⟩
    · rw [levelAfter_append_of_not_refused h, if_neg h]
      exact ⟨rfl, by simp [h]⟩

theorem logger_of_warned_session :
    (start.after [.evaluate "2+a"]).logger.level.number = 0 ∧
      calls none [.evaluate "2+a", .setVariable (some "Warn"), .run ["(1"]] =
        [] ++ [⟨some "Warn", false⟩] ∧
      (start.after [.evaluate "2+a", .setVariable (some "Warn"), .run ["(1"]]).logger.level =
        .warning ∧
      ((start.after [.evaluate "2+a"]).step (.run ["-h"])).1.logger = .initial := by
  have hcalls : calls none [.evaluate "2+a", .setVariable (some "Warn"), .run ["(1"]] =
      [] ++ [⟨some "Warn", false⟩] := by decide
  obtain ⟨-, -, hunset, -, hsteps⟩ := logger_of_session [.evaluate "2+a"]
  obtain ⟨-, -, -, hlevel, -⟩ :=
    logger_of_session [.evaluate "2+a", .setVariable (some "Warn"), .run ["(1"]]
  refine ⟨hunset rfl, hcalls, (hlevel [] _ hcalls).1, ?_⟩
  exact (hsteps (.run ["-h"])).2 (by decide)

/-- A word that names no level, and yet the level is not `info` after the call. -/
theorem level_not_info_of_basic_format :
    Level.ofName? (capitalized "basic_format") = none ∧
      calls none [.setVariable (some "basic_format"), .configure false] =
        [⟨some "basic_format", false⟩] ∧
      (start.after [.setVariable (some "basic_format"), .configure false]).logger.level =
        .notSet := by
  decide

end Session
end Reckoner
