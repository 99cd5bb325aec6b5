import Mathlib.Data.List.Basic
import Reckoner.CommandLine.Program
import Reckoner.Proofs.Log.Settings

/-!
# Transcripts of a run

What is written is either printed, which no level of the logger decides, or logged.
The arguments alone fix what is printed, what there is to report and how the run ends;
of the reports the level of the logger lets some through.  Only where the run configures
the logger and its level is refused, it ends at once and nothing is written.
-/

namespace Reckoner
namespace CommandLine

open Log

def Entry.event? : Entry → Option Event
  | event e => some e
  | output _ | error _ => none

namespace Transcript

def events (t : Transcript) : List Event :=
  t.filterMap Entry.event?

/-- All that is written except the events. -/
def printed (t : Transcript) : Transcript :=
  t.filter fun entry ↦ entry.event?.isNone

/-- Every line is ended, the last one too. -/
def outputText (t : Transcript) : String :=
  String.join (t.outputLines.map (· ++ "\n"))

def errorText (stamp : String) (t : Transcript) : String :=
  String.join ((t.errorLines stamp).map (· ++ "\n"))

/-- The lines of the errors where the entry at place `i` is written at the time `clock i`. -/
def errorLinesAt (clock : Nat → String) (t : Transcript) : List String :=
  t.zipIdx.filterMap fun (entry, i) ↦ entry.error? (clock i)

def errorTextAt (clock : Nat → String) (t : Transcript) : String :=
  String.join ((t.errorLinesAt clock).map (· ++ "\n"))

/-- A clock that stands still. -/
theorem errorLinesAt_const (stamp : String) (t : Transcript) :
    t.errorLinesAt (fun _ ↦ stamp) = t.errorLines stamp := by
  have hfst : (fun p : Entry × Nat ↦ p.1.error? stamp) = (Entry.error? stamp) ∘ Prod.fst := rfl
  change t.zipIdx.filterMap (fun p ↦ p.1.error? stamp) = _
  rw [hfst, ← List.filterMap_map, List.zipIdx_map_fst, errorLines]

theorem errorTextAt_const (stamp : String) (t : Transcript) :
    t.errorTextAt (fun _ ↦ stamp) = t.errorText stamp := by
  rw [errorTextAt, errorLinesAt_const, errorText]

/-- What is written later goes on with the clock where it stands. -/
theorem errorLinesAt_append (clock : Nat → String) (t u : Transcript) :
    errorLinesAt clock (t ++ u) =
      t.errorLinesAt clock ++ u.errorLinesAt fun i ↦ clock (t.length + i) := by
  have hlater : (u.zipIdx t.length).filterMap (fun (entry, i) ↦ entry.error? (clock i)) =
      u.errorLinesAt fun i ↦ clock (t.length + i) := by
    rw [List.zipIdx_eq_map_add, List.filterMap_map]
    rfl
  change (t ++ u).zipIdx.filterMap _ = _
  rw [List.zipIdx_append, List.filterMap_append, Nat.zero_add, hlater]
  rfl

theorem errorLinesAt_map_event (clock : Nat → String) (es : List Event) :
    errorLinesAt clock (es.map .event) = es.mapIdx fun i e ↦ e.line (clock i) := by
  rw [errorLinesAt, List.zipIdx_map, List.filterMap_map, List.mapIdx_eq_zipIdx_map]
  exact congrFun List.filterMap_eq_map _

/-- Where nothing is logged no line has a time. -/
theorem errorLinesAt_of_not_event {t : Transcript} (h : ∀ entry ∈ t, entry.event? = none)
    (clock : Nat → String) (stamp : String) : t.errorLinesAt clock = t.errorLines stamp := by
  rw [← errorLinesAt_const]
  refine List.filterMap_congr fun p hp ↦ ?_
  obtain ⟨entry, i⟩ := p
  have hentry := h entry (List.fst_mem_of_mem_zipIdx hp)
  cases entry with
  | output line => rfl
  | error line => rfl
  | event e => cases hentry

@[simp] theorem events_append (t u : Transcript) : events (t ++ u) = t.events ++ u.events := by
  simp [events]

@[simp] theorem printed_append (t u : Transcript) :
    printed (t ++ u) = t.printed ++ u.printed := by
  simp [printed]

@[simp] theorem events_map_event (es : List Event) : events (es.map .event) = es := by
  rw [events, List.filterMap_map]
  exact List.filterMap_some

@[simp] theorem printed_map_event (es : List Event) : printed (es.map .event) = [] := by
  simp [printed, Entry.event?]

theorem events_eq_nil {t : Transcript} (h : ∀ entry ∈ t, entry.event? = none) : t.events = [] :=
  List.filterMap_eq_nil_iff.mpr h

theorem printed_eq_self {t : Transcript} (h : ∀ entry ∈ t, entry.event? = none) :
    t.printed = t :=
  List.filter_eq_self.mpr fun entry hentry ↦ by rw [h entry hentry, Option.isNone_none]

/-- What goes to the output is printed. -/
theorem outputLines_printed (t : Transcript) : t.printed.outputLines = t.outputLines := by
  rw [printed, outputLines, List.filterMap_filter]
  congr 1
  funext entry
  cases entry <;> rfl

end Transcript

@[simp] theorem event?_ofOutcome (o : Outcome) : (Entry.ofOutcome o).event? = none := by
  rw [Entry.ofOutcome]
  split <;> rfl

/-! ## What the arguments fix -/

/-- The call that a run makes to configure the logger. -/
def call? (setting? : Option String) (arguments : List String) : Option Call :=
  match Request.ofArguments arguments with
  | .run a => some ⟨setting?, a.verbose⟩
  | .help | .refuse _ => none

/-- Whether a run ends early because its level is refused. -/
def Refuses (setting? : Option String) (arguments : List String) : Prop :=
  ∃ c ∈ call? setting? arguments, c.Refused

instance (setting? : Option String) (arguments : List String) :
    Decidable (Refuses setting? arguments) :=
  inferInstanceAs (Decidable (∃ c ∈ call? setting? arguments, c.Refused))

def printedOf (arguments : List String) : Transcript :=
  match Request.ofArguments arguments with
  | .run a => a.expressions.map fun x ↦ .ofOutcome (outcomeOf x)
  | .help => helpLines.map .output
  | .refuse cause => cause.lines.map .error

def reportsOf (arguments : List String) : List Event :=
  match Request.ofArguments arguments with
  | .run a =>
    a.expressions.flatMap outcomeEvents ++ [.exiting (statusOf (a.expressions.map outcomeOf))]
  | .help | .refuse _ => []

def endingOf (arguments : List String) : Ending :=
  match Request.ofArguments arguments with
  | .run a => .status (statusOf (a.expressions.map outcomeOf))
  | .help => .left 0
  | .refuse _ => .left 2

variable {l : Logger} {setting? : Option String} {arguments : List String} {a : Arguments}

theorem refuses_iff_of_accepted (h : Request.ofArguments arguments = .run a) :
    Refuses setting? arguments ↔ Call.Refused ⟨setting?, a.verbose⟩ := by
  simp [Refuses, call?, h]

theorem report_configured (level : Level) (xs : List String) :
    report (.configured level) xs =
      ((xs.flatMap outcomeEvents).filter level.shows).map .event ++
        xs.map (fun x ↦ .ofOutcome (outcomeOf x)) ++
        ([Event.exiting (statusOf (xs.map outcomeOf))].filter level.shows).map .event := by
  simp only [report, logged, Logger.written_configured, List.map_map]
  rfl

theorem event?_of_mem_map_ofOutcome {xs : List String} :
    ∀ entry ∈ xs.map fun x ↦ Entry.ofOutcome (outcomeOf x), entry.event? = none := by
  intro entry hentry
  obtain ⟨x, -, rfl⟩ := List.mem_map.mp hentry
  exact event?_ofOutcome _

theorem printed_report (level : Level) (xs : List String) :
    (report (.configured level) xs).printed = xs.map fun x ↦ .ofOutcome (outcomeOf x) := by
  simp only [report_configured, Transcript.printed_append, Transcript.printed_map_event,
    Transcript.printed_eq_self event?_of_mem_map_ofOutcome, List.nil_append, List.append_nil]

theorem events_report (level : Level) (xs : List String) :
    (report (.configured level) xs).events =
      (xs.flatMap outcomeEvents ++ [Event.exiting (statusOf (xs.map outcomeOf))]).filter
        level.shows := by
  simp only [report_configured, Transcript.events_append, Transcript.events_map_event,
    Transcript.events_eq_nil event?_of_mem_map_ofOutcome, List.append_nil, List.filter_append]

/-! The lines of a report. -/

theorem output?_ofOutcome (o : Outcome) :
    (Entry.ofOutcome o).output? = if o.success then some o.value.resultText else none := by
  rw [Entry.ofOutcome]
  split <;> rfl

theorem error?_ofOutcome (stamp : String) (o : Outcome) :
    (Entry.ofOutcome o).error? stamp =
      if !o.success then some ("error: " ++ o.message) else none := by
  rw [Entry.ofOutcome]
  cases o.success <;> rfl

theorem filterMap_ite {α β : Type} {p : α → Bool} (f : α → β) (xs : List α) :
    (xs.filterMap fun x ↦ if p x then some (f x) else none) = (xs.filter p).map f := by
  rw [← List.filterMap_filter]
  exact congrFun List.filterMap_eq_map _

theorem outputLines_report (level : Level) (xs : List String) :
    (report (.configured level) xs).outputLines =
      (xs.filter fun x ↦ (outcomeOf x).success).map fun x ↦ (outcomeOf x).value.resultText := by
  rw [← Transcript.outputLines_printed, printed_report, Transcript.outputLines,
    List.filterMap_map]
  simp only [Function.comp_def, output?_ofOutcome]
  exact filterMap_ite _ xs

theorem errorLines_ofOutcome (stamp : String) (xs : List String) :
    Transcript.errorLines stamp (xs.map fun x ↦ .ofOutcome (outcomeOf x)) =
      (xs.filter fun x ↦ !(outcomeOf x).success).map
        fun x ↦ "error: " ++ (outcomeOf x).message := by
  rw [Transcript.errorLines, List.filterMap_map]
  simp only [Function.comp_def, error?_ofOutcome]
  exact filterMap_ite _ xs

/-- The events, each at its own time, then the failures, then perhaps how the run ends. -/
theorem errorLinesAt_report (level : Level) (clock : Nat → String) (xs : List String) :
    (report (.configured level) xs).errorLinesAt clock =
      ((xs.flatMap outcomeEvents).filter level.shows).mapIdx (fun i e ↦ e.line (clock i)) ++
        (xs.filter fun x ↦ !(outcomeOf x).success).map
          (fun x ↦ "error: " ++ (outcomeOf x).message) ++
        ([Event.exiting (statusOf (xs.map outcomeOf))].filter level.shows).map
          (Event.line (clock ((xs.flatMap outcomeEvents).countP level.shows + xs.length))) := by
  have hexit : ∀ (e : Event) (clock : Nat → String),
      Transcript.errorLinesAt clock (([e].filter level.shows).map .event) =
        ([e].filter level.shows).map (Event.line (clock 0)) := by
    intro e clock
    rw [Transcript.errorLinesAt_map_event, List.filter_singleton]
    cases level.shows e <;> rfl
  rw [report_configured, Transcript.errorLinesAt_append, Transcript.errorLinesAt_append, hexit,
    Transcript.errorLinesAt_map_event,
    Transcript.errorLinesAt_of_not_event event?_of_mem_map_ofOutcome _ "", errorLines_ofOutcome]
  simp only [List.length_append, List.length_map, List.countP_eq_length_filter, Nat.add_zero]

theorem run_of_accepted_eq (hl : l.handlers ≤ 1) (h : Request.ofArguments arguments = .run a)
    (hc : ¬Call.Refused ⟨setting?, a.verbose⟩) :
    run l setting? arguments =
      (.configured (Call.level ⟨setting?, a.verbose⟩),
        report (.configured (Call.level ⟨setting?, a.verbose⟩)) a.expressions,
        .status (statusOf (a.expressions.map outcomeOf))) := by
  have hconfigure := Logger.configure_of_not_refused hl hc
  dsimp only at hconfigure
  rw [run, h]
  simp only [hconfigure]

theorem run_of_refuses (hl : l.handlers ≤ 1) (h : Refuses setting? arguments) :
    ∃ refusal, run l setting? arguments = (.configured l.level, [], .refused refusal) := by
  obtain ⟨c, hcall, hc⟩ := h
  unfold call? at hcall
  cases hrequest : Request.ofArguments arguments with
  | run a =>
      simp only [hrequest, Option.mem_some_iff] at hcall
      subst hcall
      obtain ⟨refusal, hconfigure⟩ := Logger.configure_of_refused hl hc
      dsimp only at hconfigure
      exact ⟨refusal, by rw [run, hrequest]; simp only [hconfigure]⟩
  | help => simp [hrequest] at hcall
  | refuse cause => simp [hrequest] at hcall

/-- The logger that a run leaves lets through what its level shows. -/
theorem run_of_not_refuses (hl : l.handlers ≤ 1) (h : ¬Refuses setting? arguments) :
    (run l setting? arguments).2.1.printed = printedOf arguments ∧
      (run l setting? arguments).2.1.events =
        (reportsOf arguments).filter (run l setting? arguments).1.level.shows ∧
      (run l setting? arguments).2.2 = endingOf arguments := by
  cases hrequest : Request.ofArguments arguments with
  | run a =>
      rw [refuses_iff_of_accepted hrequest] at h
      rw [run_of_accepted_eq hl hrequest h]
      simp only [printedOf, reportsOf, endingOf, hrequest, printed_report, events_report,
        Logger.level_configured, and_self]
  -- the last two configure nothing: what they print is no event, and they report nothing
  | help =>
      have hprinted : ∀ entry ∈ helpLines.map Entry.output, entry.event? = none := by
        simp [Entry.event?]
      simp only [run, printedOf, reportsOf, endingOf, hrequest,
        Transcript.printed_eq_self hprinted, Transcript.events_eq_nil hprinted,
        List.filter_nil, and_self]
  | refuse cause =>
      have hprinted : ∀ entry ∈ cause.lines.map Entry.error, entry.event? = none := by
        simp [Entry.event?]
      simp only [run, printedOf, reportsOf, endingOf, hrequest,
        Transcript.printed_eq_self hprinted, Transcript.events_eq_nil hprinted,
        List.filter_nil, and_self]

theorem logger_run (l : Logger) (setting? : Option String) (arguments : List String) :
    (run l setting? arguments).1 =
      match call? setting? arguments with
      | some c => (l.configure c.setting? c.verbose).1
      | none => l := by
  unfold run call?
  cases Request.ofArguments arguments with
  | run a =>
      dsimp only
      cases l.configure setting? a.verbose with
      | mk configured result => cases result <;> rfl
  | help => rfl
  | refuse cause => rfl

end CommandLine
end Reckoner
