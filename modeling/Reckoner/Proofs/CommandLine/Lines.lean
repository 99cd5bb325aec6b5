import Reckoner.Proofs.Session.Calls
import Reckoner.Proofs.Outcome.Messages

/-!
# One line for each result and each event

Whatever the expressions hold, every text that a run writes is one line.  So the lines of
the output are the values, and those of the errors the failures and the events, each with
the time at which it was written.
-/

namespace Reckoner
namespace CommandLine

open Log Text

/-! ## Entries on one line -/

def Entry.OnOneLine : Entry → Prop
  | output line | error line => Unbroken line.toList
  | event e => Unbroken e.message.toList

variable {entry : Entry} {stamp line : String}

theorem Entry.OnOneLine.output? (h : entry.OnOneLine) (hline : entry.output? = some line) :
    Unbroken line.toList := by
  cases entry with
  | output text =>
      obtain rfl := Option.some.inj hline
      exact h
  | error text => cases hline
  | event e => cases hline

theorem unbroken_name (level : Level) : Unbroken level.name.toList := by
  cases level <;> decide

theorem Entry.OnOneLine.error? (h : entry.OnOneLine) (hstamp : Unbroken stamp.toList)
    (hline : entry.error? stamp = some line) : Unbroken line.toList := by
  cases entry with
  | output text => cases hline
  | error text =>
      obtain rfl := Option.some.inj hline
      exact h
  | event e =>
      obtain rfl := Option.some.inj hline
      simp only [Event.line, String.toList_append, unbroken_append]
      exact ⟨⟨⟨⟨hstamp, by decide⟩, unbroken_name _⟩, by decide⟩, h⟩

theorem onOneLine_ofOutcome (x : String) : (Entry.ofOutcome (outcomeOf x)).OnOneLine := by
  rw [Entry.ofOutcome]
  split
  · exact (outcomeOf x).value.unbroken_resultText
  · change Unbroken ("error: " ++ (outcomeOf x).message).toList
    rw [String.toList_append, unbroken_append]
    exact ⟨by decide, unbroken_message_outcomeOf x⟩

theorem unbroken_of_mem_reportsOf {arguments : List String} {e : Event}
    (h : e ∈ reportsOf arguments) : Unbroken e.message.toList := by
  unfold reportsOf at h
  split at h
  · rcases List.mem_append.mp h with hevent | hexit
    · obtain ⟨x, -, hevent⟩ := List.mem_flatMap.mp hevent
      exact unbroken_of_mem_outcomeEvents hevent
    · obtain rfl := List.mem_singleton.mp hexit
      exact Event.unbroken_message _ fun _ _ hfailed ↦ by cases hfailed
  · cases h
  · cases h

theorem onOneLine_report (level : Level) (xs : List String) :
    ∀ entry ∈ report (.configured level) xs, entry.OnOneLine := by
  intro entry hentry
  rw [report_configured] at hentry
  rcases List.mem_append.mp hentry with hfirst | hexit
  · rcases List.mem_append.mp hfirst with hevent | hprinted
    · obtain ⟨e, he, rfl⟩ := List.mem_map.mp hevent
      obtain ⟨x, -, hx⟩ := List.mem_flatMap.mp (List.mem_of_mem_filter he)
      exact unbroken_of_mem_outcomeEvents hx
    · obtain ⟨x, -, rfl⟩ := List.mem_map.mp hprinted
      exact onOneLine_ofOutcome x
  · obtain ⟨e, he, rfl⟩ := List.mem_map.mp hexit
    obtain rfl := List.mem_singleton.mp (List.mem_of_mem_filter he)
    exact Event.unbroken_message _ fun _ _ hfailed ↦ by cases hfailed

/-! ## Lines and entries -/

theorem splitLines_join {lines : List String} (h : ∀ line ∈ lines, Unbroken line.toList) :
    splitLines (String.join (lines.map (· ++ "\n"))).toList = lines.map String.toList := by
  have htext : (String.join (lines.map (· ++ "\n"))).toList =
      (lines.map String.toList).flatMap (· ++ ['\n']) := by
    simp [String.toList_join, List.flatMap_map]
  rw [htext]
  refine splitLines_flatMap fun line hline ↦ ?_
  obtain ⟨text, htext, rfl⟩ := List.mem_map.mp hline
  exact h text htext

namespace Transcript

variable {t : Transcript}

theorem splitLines_outputText (h : ∀ entry ∈ t, entry.OnOneLine) :
    splitLines t.outputText.toList = t.outputLines.map String.toList := by
  refine splitLines_join fun line hline ↦ ?_
  obtain ⟨entry, hentry, hsome⟩ := List.mem_filterMap.mp hline
  exact (h entry hentry).output? hsome

theorem splitLines_errorTextAt (h : ∀ entry ∈ t, entry.OnOneLine) {clock : Nat → String}
    (hclock : ∀ i, Unbroken (clock i).toList) :
    splitLines (t.errorTextAt clock).toList = (t.errorLinesAt clock).map String.toList := by
  refine splitLines_join fun line hline ↦ ?_
  obtain ⟨⟨entry, i⟩, hentry, hsome⟩ := List.mem_filterMap.mp hline
  exact (h entry (List.fst_mem_of_mem_zipIdx hentry)).error? (hclock i) hsome

end Transcript

/-- Time decides what a line says, not whether there is one. -/
theorem length_errorLinesAt_report (level : Level) (clock : Nat → String) (xs : List String) :
    ((report (.configured level) xs).errorLinesAt clock).length =
      xs.countP (fun x ↦ !(outcomeOf x).success) +
        (report (.configured level) xs).events.length := by
  rw [errorLinesAt_report, events_report, List.filter_append,
    List.countP_eq_length_filter (p := fun x ↦ !(outcomeOf x).success)]
  simp only [List.length_append, List.length_mapIdx, List.length_map]
  omega

/-- Whatever a session has done before, and whatever characters the expressions hold, no
message of an outcome and none that is reported breaks a line.  So under any level that
comes into force every expression has one line, its value or the message of its failure, in
the order of the arguments: the lines of the output are the values that there are, and
those of the errors the events that the level shows, each with its time, with the failures
in front of the last one. -/
theorem lines_of_run (before : List Session.Command) {arguments : List String}
    {a : Arguments} {level : Level} (haccepted : Request.ofArguments arguments = .run a)
    (hlevel :
      Logger.requestedLevel (Session.start.after before).setting? a.verbose = .ok level) :
    (∀ x ∈ a.expressions, Unbroken (outcomeOf x).message.toList) ∧
    (∀ e ∈ reportsOf arguments, Unbroken e.message.toList) ∧
    ∃ (l : Logger) (t : Transcript) (status : Nat),
      run (Session.start.after before).logger (Session.start.after before).setting? arguments =
        (l, t, .status status) ∧
      t.events = (reportsOf arguments).filter level.shows ∧
      (t.printed = a.expressions.map fun x ↦
        if (outcomeOf x).success then .output (outcomeOf x).value.resultText
        else .error ("error: " ++ (outcomeOf x).message)) ∧
      splitLines t.outputText.toList =
        (a.expressions.filter fun x ↦ (outcomeOf x).success).map
          (fun x ↦ (outcomeOf x).value.resultText.toList) ∧
      (splitLines t.outputText.toList).length =
        a.expressions.countP (fun x ↦ (outcomeOf x).success) ∧
      ∀ clock : Nat → String, (∀ i, Unbroken (clock i).toList) →
        splitLines (t.errorTextAt clock).toList = (t.errorLinesAt clock).map String.toList ∧
        t.errorLinesAt clock =
          ((a.expressions.flatMap outcomeEvents).filter level.shows).mapIdx
              (fun i e ↦ e.line (clock i)) ++
            (a.expressions.filter fun x ↦ !(outcomeOf x).success).map
              (fun x ↦ "error: " ++ (outcomeOf x).message) ++
            ([Event.exiting status].filter level.shows).map
              (Event.line (clock ((a.expressions.flatMap outcomeEvents).countP level.shows +
                a.expressions.length))) ∧
        (splitLines (t.errorTextAt clock).toList).length =
          a.expressions.countP (fun x ↦ !(outcomeOf x).success) + t.events.length := by
  obtain ⟨hc, rfl⟩ := Call.not_refused_of_requestedLevel
    (c := ⟨(Session.start.after before).setting?, a.verbose⟩) hlevel
  have hlines := onOneLine_report
    (Call.level ⟨(Session.start.after before).setting?, a.verbose⟩) a.expressions
  have houtput := Transcript.splitLines_outputText hlines
  rw [outputLines_report, List.map_map] at houtput
  refine ⟨fun x _ ↦ unbroken_message_outcomeOf x, fun e he ↦ unbroken_of_mem_reportsOf he,
    _, _, _, run_of_accepted_eq (Session.handlers_after_start_le_one before) haccepted hc,
    ?_, printed_report _ _, houtput, ?_, fun clock hclock ↦ ?_⟩
  · rw [events_report, reportsOf, haccepted]
  · rw [houtput, List.length_map, List.countP_eq_length_filter]
  · have herrors := Transcript.splitLines_errorTextAt hlines hclock
    refine ⟨herrors, errorLinesAt_report _ clock _, ?_⟩
    rw [herrors, List.length_map, length_errorLinesAt_report]

/-- A line feed, a line separator and both quotes, and a clock that counts: the second and
the third expression fail. -/
theorem lines_of_run_separators :
    Request.ofArguments ["-v", "7\n/2", "\u2028'", "2\"+\n"] =
        .run ⟨["7\n/2", "\u2028'", "2\"+\n"], true⟩ ∧
      Logger.requestedLevel none true = .ok .debug ∧
      (∀ i : Nat, Unbroken i.repr.toList) ∧
      ∃ (l : Logger) (t : Transcript) (status : Nat),
        run .initial none ["-v", "7\n/2", "\u2028'", "2\"+\n"] = (l, t, .status status) ∧
        t.printed = [.output "3.5", .error "error: Unknown token: '",
          .error "error: Unknown token: \""] ∧
        splitLines t.outputText.toList = ["3.5".toList] ∧
        (splitLines (t.errorTextAt Nat.repr).toList).length = 2 + t.events.length := by
  have haccepted : Request.ofArguments ["-v", "7\n/2", "\u2028'", "2\"+\n"] =
      .run ⟨["7\n/2", "\u2028'", "2\"+\n"], true⟩ := by decide
  have hclock : ∀ i : Nat, Unbroken i.repr.toList := fun i ↦ by
    rw [Nat.repr, String.toList_ofList]
    exact unbroken_toDigits i
  obtain ⟨-, -, l, t, status, hrun, -, hprinted, houtput, -, herrors⟩ :=
    lines_of_run [] haccepted rfl
  refine ⟨haccepted, rfl, hclock, l, t, status, hrun, hprinted.trans ?_, houtput.trans ?_,
    (herrors Nat.repr hclock).2.2.trans ?_⟩
  · decide +kernel
  · decide +kernel
  · have hfails : ["7\n/2", "\u2028'", "2\"+\n"].countP
        (fun x ↦ !(outcomeOf x).success) = 2 := by decide +kernel
    rw [hfails]

end CommandLine
end Reckoner
