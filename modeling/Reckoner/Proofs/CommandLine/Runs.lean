import Reckoner.Proofs.CommandLine.Requests
import Reckoner.Proofs.Session.Calls

/-!
# What a run of the program writes

A run whose arguments are accepted, and whose level is not refused, prints the value of
every expression that succeeds and, after all that is logged, the message of every one
that fails, in the order of the arguments.  What is written for an expression is a
function of that expression.  Two runs of the same arguments print the same and end the
same whatever was configured before; only their levels decide which events are logged.
-/

namespace Reckoner
namespace CommandLine

open Log

/-- The line that an expression adds to the output. -/
def valueText (x : String) : String :=
  if (outcomeOf x).success then (outcomeOf x).value.resultText ++ "\n" else ""

/-- The line that an expression adds to the errors. -/
def failureText (x : String) : String :=
  if (outcomeOf x).success then "" else "error: " ++ (outcomeOf x).message ++ "\n"

/-- The lines of those events that a level shows. -/
def logText (level : Level) (stamp : String) (events : List Event) : String :=
  String.join ((events.filter level.shows).map fun e ↦ e.line stamp ++ "\n")

/-- The lines of those events that a level shows, each with the time at which it is
written. -/
def logTextAt (level : Level) (clock : Nat → String) (events : List Event) : String :=
  String.join (((events.filter level.shows).mapIdx fun i e ↦ e.line (clock i)).map (· ++ "\n"))

theorem logText_append (level : Level) (stamp : String) (es fs : List Event) :
    logText level stamp (es ++ fs) = logText level stamp es ++ logText level stamp fs := by
  simp only [logText, List.filter_append, List.map_append, String.join_append]

theorem logText_flatMap (level : Level) (stamp : String) (xs : List String) :
    logText level stamp (xs.flatMap outcomeEvents) =
      String.join (xs.map fun x ↦ logText level stamp (outcomeEvents x)) := by
  induction xs with
  | nil => rfl
  | cons x xs ih =>
      rw [List.flatMap_cons, logText_append, ih, List.map_cons, String.join_cons]

theorem logTextAt_const (level : Level) (stamp : String) (events : List Event) :
    logTextAt level (fun _ ↦ stamp) events = logText level stamp events := by
  have hlines : ∀ es : List Event,
      (es.mapIdx fun _ e ↦ e.line stamp) = es.map (Event.line stamp) := fun es ↦ by
    rw [List.mapIdx_eq_zipIdx_map]
    change es.zipIdx.map (Event.line stamp ∘ Prod.fst) = _
    rw [← List.map_map, List.zipIdx_map_fst]
  rw [logTextAt, hlines, List.map_map]
  rfl

/-- The lines of those that have one are what each of them all adds, a line or nothing. -/
theorem join_filter_map (p : String → Bool) (line : String → String) (xs : List String) :
    String.join (((xs.filter p).map line).map (· ++ "\n")) =
      String.join (xs.map fun x ↦ if p x then line x ++ "\n" else "") := by
  induction xs with
  | nil => rfl
  | cons x xs ih =>
      rw [List.map_cons (f := fun x ↦ if p x then line x ++ "\n" else ""), String.join_cons, ← ih]
      cases hx : p x with
      | true => rw [List.filter_cons_of_pos hx, List.map_cons, List.map_cons, String.join_cons,
          if_pos rfl]
      | false => rw [List.filter_cons_of_neg (by simp [hx]), if_neg Bool.false_ne_true,
          String.empty_append]

theorem join_failureText (xs : List String) :
    String.join (xs.map failureText) =
      String.join (((xs.filter fun x ↦ !(outcomeOf x).success).map
        fun x ↦ "error: " ++ (outcomeOf x).message).map (· ++ "\n")) := by
  rw [join_filter_map]
  refine congrArg String.join (List.map_congr_left fun x _ ↦ ?_)
  rw [failureText]
  cases (outcomeOf x).success <;> rfl

theorem statusOf_map (xs : List String) :
    statusOf (xs.map outcomeOf) =
      if ∀ x ∈ xs, (outcomeOf x).success = true then 0 else 1 := by
  simp [statusOf]

theorem outputText_report (level : Level) (xs : List String) :
    (report (.configured level) xs).outputText = String.join (xs.map valueText) := by
  rw [Transcript.outputText, outputLines_report, join_filter_map]
  rfl

theorem errorTextAt_report (level : Level) (clock : Nat → String) (xs : List String) :
    (report (.configured level) xs).errorTextAt clock =
      logTextAt level clock (xs.flatMap outcomeEvents) ++ String.join (xs.map failureText) ++
        logText level (clock ((xs.flatMap outcomeEvents).countP level.shows + xs.length))
          [.exiting (statusOf (xs.map outcomeOf))] := by
  rw [Transcript.errorTextAt, errorLinesAt_report, List.map_append, List.map_append,
    String.join_append, String.join_append, ← join_failureText, List.map_map (f := Event.line _)]
  rfl

theorem errorText_report (level : Level) (stamp : String) (xs : List String) :
    (report (.configured level) xs).errorText stamp =
      String.join (xs.map fun x ↦ logText level stamp (outcomeEvents x)) ++
        String.join (xs.map failureText) ++
        logText level stamp [.exiting (statusOf (xs.map outcomeOf))] := by
  rw [← Transcript.errorTextAt_const, errorTextAt_report, logTextAt_const, logText_flatMap]

/-- Whatever a session has done before, a run whose arguments are accepted, under any level
that comes into force, ends with status zero exactly if every expression succeeds and with
one otherwise.  The output holds the values that there are; the errors hold all that is
logged about the expressions, then the messages of the failures, then perhaps how the run
ends, whatever the clock shows meanwhile.  Times apart, every expression adds to each of the
three what it adds to every other run. -/
theorem run_of_accepted (before : List Session.Command) {arguments : List String}
    {a : Arguments} {level : Level} (haccepted : Request.ofArguments arguments = .run a)
    (hlevel :
      Logger.requestedLevel (Session.start.after before).setting? a.verbose = .ok level) :
    ∃ (l : Logger) (t : Transcript) (status : Nat),
      run (Session.start.after before).logger (Session.start.after before).setting? arguments =
        (l, t, .status status) ∧
      l.level = level ∧
      a.expressions ≠ [] ∧
      status = (if ∀ x ∈ a.expressions, (outcomeOf x).success = true then 0 else 1) ∧
      t.outputText = String.join (a.expressions.map valueText) ∧
      (∀ stamp, t.errorText stamp =
        String.join (a.expressions.map fun x ↦ logText level stamp (outcomeEvents x)) ++
          String.join (a.expressions.map failureText) ++
          logText level stamp [.exiting status]) ∧
      ∀ clock, t.errorTextAt clock =
        logTextAt level clock (a.expressions.flatMap outcomeEvents) ++
          String.join (a.expressions.map failureText) ++
          logText level (clock ((a.expressions.flatMap outcomeEvents).countP level.shows +
            a.expressions.length)) [.exiting status] := by
  obtain ⟨hc, rfl⟩ := Call.not_refused_of_requestedLevel
    (c := ⟨(Session.start.after before).setting?, a.verbose⟩) hlevel
  refine ⟨_, _, _, run_of_accepted_eq (Session.handlers_after_start_le_one before) haccepted hc,
    rfl, expressions_ne_nil haccepted, statusOf_map _, outputText_report _ _, fun stamp ↦ ?_,
    fun clock ↦ ?_⟩
  · exact errorText_report _ stamp _
  · exact errorTextAt_report _ clock _

/-- One value and two failures, under a level that the variable does not fix, and a clock
that counts. -/
theorem run_of_accepted_verbose :
    Request.ofArguments ["-v", "7/2", "2+a", "--", "0/0"] =
        .run ⟨["7/2", "2+a", "0/0"], true⟩ ∧
      Logger.requestedLevel (some "error") true = .ok .debug ∧
      ∃ (l : Logger) (t : Transcript),
        run .initial (some "error") ["-v", "7/2", "2+a", "--", "0/0"] = (l, t, .status 1) ∧
        t.outputText = "3.5\n" ∧
        t.errorTextAt Nat.repr =
          "0 - DEBUG - infix_calculator - Converted '7/2' to postfix '_ 7 _ 2 /'\n" ++
          "1 - DEBUG - infix_calculator - Evaluated postfix '_ 7 _ 2 /' to 3.5\n" ++
          "2 - INFO - infix_calculator - Could not evaluate '2+a': Unknown token: a\n" ++
          "3 - DEBUG - infix_calculator - Converted '0/0' to postfix '_ 0 _ 0 /'\n" ++
          "4 - DEBUG - infix_calculator - Evaluated postfix '_ 0 _ 0 /' to nan\n" ++
          "5 - INFO - infix_calculator - Expression '0/0' is not a number\n" ++
          "error: Unknown token: a\nerror: Invalid Expression\n" ++
          "9 - DEBUG - infix_calculator - Exiting with status 1\n" := by
  have haccepted : Request.ofArguments ["-v", "7/2", "2+a", "--", "0/0"] =
      .run ⟨["7/2", "2+a", "0/0"], true⟩ := by decide
  obtain ⟨l, t, status, hrun, -, -, hstatus, houtput, -, herrors⟩ :=
    run_of_accepted [.setVariable (some "error")] haccepted rfl
  have hone : status = 1 := by
    rw [hstatus]
    decide +kernel
  refine ⟨haccepted, rfl, l, t, hone ▸ hrun, houtput.trans ?_, (herrors Nat.repr).trans ?_⟩
  · decide +kernel
  · rw [hone]
    decide +kernel

/-! ## Runs of the same arguments -/

theorem refused_iff_refuses {l : Logger} {setting? : Option String} {arguments : List String}
    (hl : l.handlers ≤ 1) :
    (∃ refusal, (run l setting? arguments).2.2 = .refused refusal) ↔
      Refuses setting? arguments := by
  constructor
  · rintro ⟨refusal, hrefusal⟩
    by_contra hrefuses
    have hending := (run_of_not_refuses hl hrefuses).2.2
    rw [hrefusal] at hending
    unfold endingOf at hending
    split at hending <;> cases hending
  · intro hrefuses
    obtain ⟨refusal, hrun⟩ := run_of_refuses hl hrefuses
    exact ⟨refusal, by rw [hrun]⟩

/-- What is printed decides what the output holds. -/
theorem outputText_eq_of_printed {t u : Transcript} (h : t.printed = u.printed) :
    t.outputText = u.outputText := by
  rw [Transcript.outputText, Transcript.outputText, ← t.outputLines_printed,
    ← u.outputLines_printed, h]

theorem not_refuses_verbose (setting? : Option String) {arguments : List String} {a : Arguments}
    (h : Request.ofArguments arguments = .run a) : ¬Refuses setting? ("-v" :: arguments) := by
  rw [refuses_iff_of_accepted (ofArguments_verbose_cons h)]
  exact fun hrefused ↦ Bool.false_ne_true hrefused.1.symm

/-- Two runs of the same arguments, each after a session of its own.  A run ends because of
the variable exactly if this is looked at and holds one of the two refused words.  Two that
do not end so print the same lines in the same order and have the same ending, and log what
their levels show of the same reports.  So does a run with `-v` in front, which is never
refused. -/
theorem run_of_same_arguments (before before' : List Session.Command)
    (arguments : List String) :
    let s := Session.start.after before
    let s' := Session.start.after before'
    let r := run s.logger s.setting? arguments
    let r' := run s'.logger s'.setting? arguments
    ((∃ refusal, r.2.2 = .refused refusal) ↔ Refuses s.setting? arguments) ∧
    (¬Refuses s.setting? arguments → ¬Refuses s'.setting? arguments →
      r.2.2 = r'.2.2 ∧ r.2.1.outputText = r'.2.1.outputText ∧
      r.2.1.printed = r'.2.1.printed ∧
      r.2.1.events = (reportsOf arguments).filter r.1.level.shows ∧
      r'.2.1.events = (reportsOf arguments).filter r'.1.level.shows) ∧
    ∀ a, Request.ofArguments arguments = .run a →
      let v := run s.logger s.setting? ("-v" :: arguments)
      (∀ refusal, v.2.2 ≠ .refused refusal) ∧
      (¬Refuses s.setting? arguments →
        v.2.2 = r.2.2 ∧ v.2.1.outputText = r.2.1.outputText ∧
        v.2.1.printed = r.2.1.printed ∧
        v.2.1.events = (reportsOf arguments).filter Level.debug.shows) := by
  intro s s' r r'
  have hs : s.logger.handlers ≤ 1 := Session.handlers_after_start_le_one before
  have hs' : s'.logger.handlers ≤ 1 := Session.handlers_after_start_le_one before'
  refine ⟨refused_iff_refuses hs, ?_, ?_⟩
  · intro h h'
    obtain ⟨hprinted, hevents, hending⟩ := run_of_not_refuses hs h
    obtain ⟨hprinted', hevents', hending'⟩ := run_of_not_refuses hs' h'
    have hsame : r.2.1.printed = r'.2.1.printed := hprinted.trans hprinted'.symm
    exact ⟨hending.trans hending'.symm, outputText_eq_of_printed hsame, hsame, hevents, hevents'⟩
  · intro a haccepted v
    -- the run in detail never looks at the variable, so only the other one can be refused
    have hverbose := ofArguments_verbose_cons haccepted
    have hv := not_refuses_verbose s.setting? haccepted
    obtain ⟨hprintedv, heventsv, hendingv⟩ := run_of_not_refuses hs hv
    refine ⟨fun refusal hrefusal ↦ hv ((refused_iff_refuses hs).mp ⟨refusal, hrefusal⟩), ?_⟩
    intro h
    obtain ⟨hprinted, -, hending⟩ := run_of_not_refuses hs h
    have hsame : v.2.1.printed = r.2.1.printed := by
      rw [hprintedv, hprinted, printedOf, printedOf, hverbose, haccepted]
    have hlevel : v.1.level = .debug := by
      have hrun := run_of_accepted_eq hs hverbose ((refuses_iff_of_accepted hverbose).not.mp hv)
      change (run s.logger s.setting? ("-v" :: arguments)).1.level = .debug
      rw [hrun]
      rfl
    have hreports : reportsOf ("-v" :: arguments) = reportsOf arguments := by
      rw [reportsOf, reportsOf, hverbose, haccepted]
    refine ⟨?_, outputText_eq_of_printed hsame, hsame, ?_⟩
    · rw [hendingv, hending, endingOf, endingOf, hverbose, haccepted]
    · rw [← hreports, ← hlevel]
      exact heventsv

/-- Under the level of detail, and under `info` where no level has the name. -/
theorem run_of_same_arguments_levels :
    let r := run (.configured .debug) (some "debug") ["7/2", "2+a"]
    let r' := run .initial (some "no such level") ["7/2", "2+a"]
    ¬Refuses (some "debug") ["7/2", "2+a"] ∧ ¬Refuses (some "no such level") ["7/2", "2+a"] ∧
      r.2.2 = r'.2.2 ∧ r.2.1.printed = r'.2.1.printed ∧
      Request.ofArguments ["7/2", "2+a"] = .run ⟨["7/2", "2+a"], false⟩ ∧
      (run (.configured .debug) (some "debug") ["-v", "7/2", "2+a"]).2.2 = r.2.2 := by
  have h : ¬Refuses (some "debug") ["7/2", "2+a"] := by decide
  have h' : ¬Refuses (some "no such level") ["7/2", "2+a"] := by decide
  have haccepted : Request.ofArguments ["7/2", "2+a"] = .run ⟨["7/2", "2+a"], false⟩ := by decide
  obtain ⟨-, hsame, hverbose⟩ := run_of_same_arguments
    [.setVariable (some "debug"), .configure false] [.setVariable (some "no such level")]
    ["7/2", "2+a"]
  obtain ⟨hending, -, hprinted, -⟩ := hsame h h'
  exact ⟨h, h', hending, hprinted, haccepted, ((hverbose _ haccepted).2 h).1⟩

/-- The same expression, once with the word for the basic format in place of a level. -/
theorem run_refused_of_basic_format :
    (run .initial (some "basic_format") ["1"]).2 = ([], .refused .basicFormat) ∧
      (run .initial none ["1"]).2 = ([.output "1"], .status 0) := by
  decide +kernel

end CommandLine
end Reckoner
