import Mathlib.Data.List.TakeWhile
import Reckoner.Proofs.CommandLine.Requests

/-!
# Which arguments become expressions

Of the arguments of a run none is lost or changed but those that ask for detail in front of
the first `--`, and that `--` itself.  An argument is read by itself, as one of three things:
as asking for detail, as it stands, or as something that no run comes of.  The readings of a
run are then of the first two kinds, and its expressions are those of the second in order.
-/

namespace Reckoner
namespace CommandLine

/-- Whether an argument consists of a hyphen and letters `v`, perhaps with `v=` before them,
or of two hyphens and the beginning of `verbose`. -/
def asksForDetail (argument : String) : Bool :=
  match argument.toList with
  | '-' :: '-' :: name => !name.isEmpty && name.isPrefixOf "verbose".toList
  | '-' :: 'v' :: '=' :: letters => !letters.isEmpty && letters.all (· == 'v')
  | '-' :: letters => !letters.isEmpty && letters.all (· == 'v')
  | _ => false

/-- The arguments in front of the first `--`. -/
def beforeEnd (arguments : List String) : List String :=
  arguments.takeWhile (· != "--")

/-- The arguments from the first `--` on. -/
def fromEnd (arguments : List String) : List String :=
  arguments.dropWhile (· != "--")

/-- The arguments without those that ask for detail in front of the first `--`, and without
that `--`. -/
def remaining (arguments : List String) : List String :=
  (beforeEnd arguments).filter (fun x ↦ !asksForDetail x) ++ (fromEnd arguments).drop 1

namespace Reading

def plain? : Reading → Option String
  | plain text => some text
  | _ => none

/-- Whether no run comes of it. -/
def stops : Reading → Bool
  | plain _ => false
  | flags given => given.contains .help
  | withValue _ _ | unknown _ => true

end Reading

/-- What an argument may be read as: it asks for detail, and nothing else; or it stands as
it is, or no run comes of it. -/
def ReadAs (argument : String) (r : Reading) : Prop :=
  asksForDetail argument = true ∧ (∃ given, r = .flags given ∧ given.contains .help = false) ∨
    asksForDetail argument = false ∧ (r = .plain argument ∨ r.stops = true)

variable {argument : String} {w : List Char} {r : Reading} {g : Gathered} {a : Arguments}
  {readings : List Reading} {arguments : List String}

/-! ## Reading one argument -/

theorem readOther_cases (h : argument.toList = w) :
    readOther w = .plain argument ∨ (readOther w).stops = true := by
  unfold readOther
  split
  · exact .inl (by rw [← h, String.ofList_toList])
  · exact .inr rfl

theorem readCluster_of_all (h : ∀ c ∈ w, c = 'v') (before : List Flag) :
    ∃ later, readCluster .verbose before w = .flags (before ++ later) ∧
      later.contains .help = false := by
  induction w generalizing before with
  | nil => exact ⟨[.verbose], rfl, rfl⟩
  | cons c w ih =>
      obtain ⟨rfl, hw⟩ := List.forall_mem_cons.mp h
      obtain ⟨later, hlater, hhelp⟩ := ih hw (before ++ [.verbose])
      refine ⟨.verbose :: later, ?_, by simpa using hhelp⟩
      rw [List.append_cons]
      exact hlater

/-- A cluster of other letters asks for help or has a value. -/
theorem stops_readCluster_of_not_all (flag : Flag) (before : List Flag)
    (h : ¬(flag = .verbose ∧ ∀ c ∈ w, c = 'v') ∨ before.contains .help = true) :
    (readCluster flag before w).stops = true := by
  induction w generalizing flag before with
  | nil =>
      have hmem : Flag.help ∈ before ++ [flag] := by
        rcases h with h | h
        · cases flag with
          | help => simp
          | verbose => exact absurd ⟨rfl, fun c hc ↦ absurd hc List.not_mem_nil⟩ h
        · exact List.mem_append_left _ (by simpa using h)
      simpa [readCluster, Reading.stops] using hmem
  | cons c w ih =>
      rw [readCluster]
      cases hc : Flag.ofLetter? c with
      | none => simp only [Reading.stops]
      | some next =>
          refine ih next (before ++ [flag]) ?_
          cases flag with
          | help => exact .inr (by simp)
          | verbose =>
              refine h.imp (fun h hnext ↦ h ⟨rfl, List.forall_mem_cons.mpr ⟨?_, hnext.2⟩⟩)
                fun h ↦ by simpa using h
              obtain ⟨rfl, -⟩ := hnext
              have hletter := List.find?_some hc
              exact (by simpa [Flag.letter] using hletter : 'v' = c).symm

/-! Long options: a name without a value that begins one flag alone. -/

theorem splitValue_of_notMem (h : '=' ∉ w) : splitValue w = (w, none) := by
  have hdrop : w.dropWhile (· != '=') = [] :=
    List.dropWhile_eq_nil_iff.mpr fun c hc ↦ by
      have hne : c ≠ '=' := fun heq ↦ h (heq ▸ hc)
      simpa using hne
  rw [splitValue, hdrop]

theorem exists_splitValue_of_mem (h : '=' ∈ w) :
    ∃ name value, splitValue w = (name, some value) := by
  unfold splitValue
  split
  · next hdrop =>
      have hne := List.dropWhile_eq_nil_iff.mp hdrop '=' h
      exact absurd hne (by decide)
  · exact ⟨_, _, rfl⟩

theorem longMatches_eq (name : List Char) :
    longMatches ('-' :: '-' :: name) =
      (if name.isPrefixOf "help".toList then [.help] else []) ++
        if name.isPrefixOf "verbose".toList then [.verbose] else [] := by
  have hhelp : ('-' :: '-' :: name).isPrefixOf Flag.help.longName.toList =
      name.isPrefixOf "help".toList := rfl
  have hverbose : ('-' :: '-' :: name).isPrefixOf Flag.verbose.longName.toList =
      name.isPrefixOf "verbose".toList := rfl
  simp only [longMatches, Flag.all, List.filter_cons, List.filter_nil, hhelp, hverbose]
  split <;> rfl

theorem readAs_long {name : List Char} (hlist : argument.toList = '-' :: '-' :: name)
    (hne : name ≠ []) (hr : readArgument argument = .ok r) : ReadAs argument r := by
  have hother := readOther_cases hlist
  have hasks : asksForDetail argument = name.isPrefixOf "verbose".toList := by
    unfold asksForDetail
    rw [hlist]
    change (!name.isEmpty && _) = _
    rw [List.isEmpty_eq_false_iff.mpr hne, Bool.not_false, Bool.true_and]
  unfold readArgument at hr
  simp only [hlist] at hr
  rw [ReadAs, hasks]
  by_cases hvalue : '=' ∈ '-' :: '-' :: name
  · obtain ⟨key, value, hsplit⟩ := exists_splitValue_of_mem hvalue
    have hnot : name.isPrefixOf "verbose".toList = false := by
      rw [← Bool.not_eq_true, List.isPrefixOf_iff_prefix]
      intro hbegins
      have hmem : '=' ∈ name := by simpa using hvalue
      exact absurd (hbegins.subset hmem) (by decide)
    refine .inr ⟨hnot, ?_⟩
    rw [hsplit] at hr
    split at hr
    · next hnone => cases hnone
    · cases hr
      exact .inr rfl
    · cases hr
      exact hother
    · cases hr
  · rw [splitValue_of_notMem hvalue, longMatches_eq] at hr
    cases hverbose : name.isPrefixOf "verbose".toList with
    | true =>
        have hhelp : name.isPrefixOf "help".toList = false := by
          obtain ⟨c, name, rfl⟩ := List.exists_cons_of_ne_nil hne
          obtain ⟨rfl, -⟩ := List.cons_prefix_cons.mp (List.isPrefixOf_iff_prefix.mp hverbose)
          rfl
        rw [hverbose, hhelp] at hr
        exact .inl ⟨rfl, [.verbose], (Except.ok.inj hr).symm, rfl⟩
    | false =>
        refine .inr ⟨rfl, ?_⟩
        rw [hverbose] at hr
        cases hhelp : name.isPrefixOf "help".toList with
        | true =>
            rw [hhelp] at hr
            exact .inr (Except.ok.inj hr ▸ rfl)
        | false =>
            rw [hhelp] at hr
            exact Except.ok.inj hr ▸ hother

/-! Short options: one letter, and what follows it at once or after an `=`. -/

theorem eq_letter_of_ofLetter? {c : Char} {flag : Flag} (h : Flag.ofLetter? c = some flag) :
    c = flag.letter := by
  have hletter := List.find?_some h
  exact (by simpa using hletter : flag.letter = c).symm

/-- The letters after a `v` all ask for detail, or no run comes of them. -/
theorem readCluster_verbose_cases (w : List Char) :
    w.all (· == 'v') = true ∧ (∃ given, readCluster .verbose [] w = .flags given ∧
        given.contains .help = false) ∨
      w.all (· == 'v') = false ∧ (readCluster .verbose [] w).stops = true := by
  have hall : w.all (· == 'v') = true ↔ ∀ c ∈ w, c = 'v' := by simp
  cases hw : w.all (· == 'v') with
  | true => exact .inl ⟨rfl, readCluster_of_all (hall.mp hw) []⟩
  | false =>
      refine .inr ⟨rfl, stops_readCluster_of_not_all .verbose [] (.inl fun h ↦ ?_)⟩
      exact Bool.false_ne_true (hw.symm.trans (hall.mpr h.2))

theorem asksForDetail_value (h : argument.toList = '-' :: 'v' :: '=' :: w) :
    asksForDetail argument = (!w.isEmpty && w.all (· == 'v')) := by
  unfold asksForDetail
  rw [h]
  rfl

theorem asksForDetail_letters {c : Char} (h : argument.toList = '-' :: c :: w) (hc : c ≠ '-')
    (hw : ¬(c = 'v' ∧ w.head? = some '=')) :
    asksForDetail argument = (c :: w).all (· == 'v') := by
  unfold asksForDetail
  rw [h]
  split
  · next name hlong =>
      obtain ⟨rfl, -⟩ := List.cons.inj (List.cons.inj hlong).2
      exact absurd rfl hc
  · next letters hvalue =>
      obtain ⟨rfl, rfl⟩ := List.cons.inj (List.cons.inj hvalue).2
      exact absurd ⟨rfl, rfl⟩ hw
  · next letters _ _ hletters =>
      obtain ⟨-, rfl⟩ := List.cons.inj hletters
      rfl
  · next hother => exact absurd rfl (hother (c :: w))

theorem asksForDetail_of_ne {c : Char} (h : argument.toList = '-' :: c :: w) (hc : c ≠ '-')
    (hv : c ≠ 'v') : asksForDetail argument = false := by
  rw [asksForDetail_letters h hc fun hvalue ↦ hv hvalue.1, List.all_cons, beq_false_of_ne hv,
    Bool.false_and]

theorem readArgument_of_letter {flag : Flag} (h : argument.toList = '-' :: flag.letter :: w)
    (hw : w.head? ≠ some '=') : readArgument argument = .ok (readCluster flag [] w) := by
  have hletter : ∀ flag : Flag, Flag.ofLetter? flag.letter = some flag := by
    intro flag
    cases flag <;> rfl
  unfold readArgument
  rw [h]
  split
  · next hlong =>
      obtain ⟨hletter, -⟩ := List.cons.inj (List.cons.inj hlong).2
      exact absurd hletter (by cases flag <;> decide)
  · next c rest _ hshort =>
      obtain ⟨rfl, rfl⟩ := List.cons.inj (List.cons.inj hshort).2
      rw [hletter]
      split
      · exact absurd rfl hw
      · exact absurd rfl hw
      · next flag' hflag _ _ =>
          obtain rfl := Option.some.inj hflag
          rfl
      · next hflag => cases hflag
  · next hother => exact absurd rfl (hother flag.letter w)

/-- After an `=` come further letters, at least one. -/
theorem readArgument_of_value {flag : Flag}
    (h : argument.toList = '-' :: flag.letter :: '=' :: w) :
    readArgument argument =
      .ok (if w = [] then .withValue flag "" else readCluster flag [] w) := by
  unfold readArgument
  rw [h]
  cases flag <;> cases w <;> rfl

theorem readArgument_of_no_letter {c : Char} (h : argument.toList = '-' :: c :: w)
    (hc : c ≠ '-') (hnone : Flag.ofLetter? c = none) :
    readArgument argument = .ok (readOther ('-' :: c :: w)) := by
  unfold readArgument
  rw [h]
  split
  · next hlong =>
      obtain ⟨rfl, -⟩ := List.cons.inj (List.cons.inj hlong).2
      exact absurd rfl hc
  · next d rest _ hshort =>
      obtain ⟨rfl, rfl⟩ := List.cons.inj (List.cons.inj hshort).2
      rw [hnone]
  · next hother => exact absurd rfl (hother c w)

theorem readAs_help (h : argument.toList = '-' :: Flag.help.letter :: w)
    (hr : readArgument argument = .ok r) : ReadAs argument r := by
  have hstops (letters : List Char) : (readCluster .help [] letters).stops = true :=
    stops_readCluster_of_not_all .help [] (.inl fun h ↦ by cases h.1)
  refine .inr ⟨asksForDetail_of_ne h (by decide) (by decide), .inr ?_⟩
  by_cases hw : w.head? = some '='
  · obtain ⟨letters, rfl⟩ := List.head?_eq_some_iff.mp hw
    rw [readArgument_of_value h] at hr
    obtain rfl := Except.ok.inj hr
    split
    · rfl
    · exact hstops letters
  · rw [readArgument_of_letter h hw] at hr
    exact Except.ok.inj hr ▸ hstops w

theorem readAs_verbose (h : argument.toList = '-' :: Flag.verbose.letter :: w)
    (hr : readArgument argument = .ok r) : ReadAs argument r := by
  by_cases hw : w.head? = some '='
  · obtain ⟨letters, rfl⟩ := List.head?_eq_some_iff.mp hw
    rw [readArgument_of_value h] at hr
    obtain rfl := Except.ok.inj hr
    rw [ReadAs, asksForDetail_value h]
    split
    · next hnil => exact .inr ⟨by rw [hnil]; rfl, .inr rfl⟩
    · next hne =>
        rw [List.isEmpty_eq_false_iff.mpr hne, Bool.not_false, Bool.true_and]
        exact (readCluster_verbose_cases letters).imp_right (.imp_right .inr)
  · rw [readArgument_of_letter h hw] at hr
    obtain rfl := Except.ok.inj hr
    rw [ReadAs, asksForDetail_letters h (by decide) fun hvalue ↦ hw hvalue.2]
    exact (readCluster_verbose_cases w).imp_right (.imp_right .inr)

theorem readArgument_of_head (h : argument.toList.head? ≠ some '-') :
    readArgument argument = .ok (.plain argument) := by
  unfold readArgument
  split
  · next hlist => exact absurd (by rw [hlist]; rfl) h
  · next hlist => exact absurd (by rw [hlist]; rfl) h
  · rfl

theorem asksForDetail_of_head (h : argument.toList.head? ≠ some '-') :
    asksForDetail argument = false := by
  unfold asksForDetail
  split
  · next hlist => exact absurd (by rw [hlist]; rfl) h
  · next hlist => exact absurd (by rw [hlist]; rfl) h
  · next hlist => exact absurd (by rw [hlist]; rfl) h
  · rfl

/-- Every argument but `--` itself, if it can be read at all. -/
theorem readAs_of_readArgument (hne : argument ≠ "--") (hr : readArgument argument = .ok r) :
    ReadAs argument r := by
  by_cases hhead : argument.toList.head? = some '-'
  · obtain ⟨rest, hlist⟩ := List.head?_eq_some_iff.mp hhead
    cases rest with
    | nil =>
        obtain rfl : argument = "-" := String.toList_injective hlist
        exact .inr ⟨rfl, .inl (Except.ok.inj hr).symm⟩
    | cons c rest =>
        by_cases hc : c = '-'
        · subst hc
          refine readAs_long hlist (fun hnil ↦ hne (String.toList_injective ?_)) hr
          rw [hlist, hnil]
          rfl
        · cases hflag : Flag.ofLetter? c with
          | none =>
              have hv : c ≠ 'v' := by
                rintro rfl
                cases hflag
              rw [readArgument_of_no_letter hlist hc hflag] at hr
              exact .inr ⟨asksForDetail_of_ne hlist hc hv,
                Except.ok.inj hr ▸ readOther_cases hlist⟩
          | some flag =>
              obtain rfl := eq_letter_of_ofLetter? hflag
              cases flag with
              | help => exact readAs_help hlist hr
              | verbose => exact readAs_verbose hlist hr
  · rw [readArgument_of_head hhead] at hr
    exact .inr ⟨asksForDetail_of_head hhead, .inl (Except.ok.inj hr).symm⟩

/-! ## Reading all arguments -/

/-- What a run's readings have gathered: nothing that stops it, and every argument that was
left plain. -/
theorem extras_eq_nil_of_gather (h : gather g readings = .run a) : g.extras = [] := by
  induction readings generalizing g with
  | nil => exact (request_eq_run_iff.mp h).1
  | cons reading readings ih =>
      cases reading with
      | plain text =>
          have hextras := ih h
          rw [Gathered.addPlain] at hextras
          split at hextras
          · exact absurd hextras (by simp)
          · exact hextras
      | unknown text => exact absurd (ih h) (by simp [Gathered.addUnknown])
      | withValue flag value => cases h
      | flags given =>
          rw [gather] at h
          split at h
          · cases h
          · have hextras := ih h
            exact hextras

theorem eq_of_gather (h : gather g readings = .run a) :
    (∀ r ∈ readings, r.stops = false) ∧
      a = ⟨(g.block ++ readings.filterMap Reading.plain?).erase "--",
        g.verbose || readings.any fun r ↦ r.plain?.isNone⟩ := by
  induction readings generalizing g with
  | nil =>
      obtain ⟨-, -, rfl⟩ := request_eq_run_iff.mp h
      refine ⟨fun r hr ↦ absurd hr List.not_mem_nil, ?_⟩
      rw [List.filterMap_nil, List.append_nil, List.any_nil, Bool.or_false]
  | cons reading readings ih =>
      cases reading with
      | plain text =>
          obtain ⟨hstops, ha⟩ := ih h
          have hnext : gather (g.addPlain text) readings = .run a := h
          have hextras := extras_eq_nil_of_gather hnext
          have hadd : g.addPlain text = { g with block := g.block ++ [text] } := by
            rw [Gathered.addPlain] at hextras ⊢
            split at hextras
            · exact absurd hextras (by simp)
            · next hopen => rw [if_neg hopen]
          rw [hadd] at ha
          refine ⟨List.forall_mem_cons.mpr ⟨rfl, hstops⟩, ?_⟩
          have hplain : (Reading.plain text :: readings).filterMap Reading.plain? =
              text :: readings.filterMap Reading.plain? := List.filterMap_cons_some rfl
          rw [ha, hplain, List.any_cons, List.append_assoc]
          rfl
      | unknown text =>
          have hnext : gather (g.addUnknown text) readings = .run a := h
          exact absurd (extras_eq_nil_of_gather hnext) (by simp [Gathered.addUnknown])
      | withValue flag value => cases h
      | flags given =>
          rw [gather] at h
          split at h
          · cases h
          · next hhelp =>
              obtain ⟨hstops, ha⟩ := ih h
              refine ⟨List.forall_mem_cons.mpr ⟨by simpa [Reading.stops] using hhelp, hstops⟩, ?_⟩
              rw [ha, List.filterMap_cons_none rfl, List.any_cons]
              simp [Reading.plain?, Gathered.addVerbose, Gathered.closeBlock]

theorem readAll_cons_of_ne (hne : argument ≠ "--")
    (h : readAll (argument :: arguments) = .ok readings) :
    ∃ r later, readArgument argument = .ok r ∧ readAll arguments = .ok later ∧
      readings = r :: later := by
  rw [readAll, if_neg hne] at h
  obtain ⟨r, hr, h⟩ := bind_eq_ok_iff.mp h
  obtain ⟨later, hlater, h⟩ := bind_eq_ok_iff.mp h
  exact ⟨r, later, hr, hlater, (Except.ok.inj h).symm⟩

theorem filterMap_plain?_map (arguments : List String) :
    (arguments.map Reading.plain).filterMap Reading.plain? = arguments := by
  rw [List.filterMap_map]
  exact List.filterMap_some

theorem beforeEnd_cons_end (arguments : List String) : beforeEnd ("--" :: arguments) = [] := by
  simp [beforeEnd]

theorem fromEnd_cons_end (arguments : List String) :
    fromEnd ("--" :: arguments) = "--" :: arguments := by
  simp [fromEnd]

theorem beforeEnd_cons_of_ne (h : argument ≠ "--") (arguments : List String) :
    beforeEnd (argument :: arguments) = argument :: beforeEnd arguments := by
  simp [beforeEnd, h]

theorem fromEnd_cons_of_ne (h : argument ≠ "--") (arguments : List String) :
    fromEnd (argument :: arguments) = fromEnd arguments := by
  simp [fromEnd, h]

theorem notMem_beforeEnd (arguments : List String) : "--" ∉ beforeEnd arguments := by
  intro hmem
  have hbefore := List.mem_takeWhile_imp hmem
  simp at hbefore

theorem fromEnd_eq_nil_or_cons (arguments : List String) :
    fromEnd arguments = [] ∨ ∃ rest, fromEnd arguments = "--" :: rest := by
  cases hrest : fromEnd arguments with
  | nil => exact .inl rfl
  | cons x rest =>
      have hx := List.head?_dropWhile_not (· != "--") arguments
      rw [← fromEnd, hrest] at hx
      obtain rfl : x = "--" := by simpa using hx
      exact .inr ⟨rest, rfl⟩

/-- Where nothing stops, the arguments in front of the first `--` are plain or ask for
detail, and all others are plain. -/
theorem eq_of_readAll (h : readAll arguments = .ok readings)
    (hstops : ∀ r ∈ readings, r.stops = false) :
    readings.filterMap Reading.plain? =
        (beforeEnd arguments).filter (fun x ↦ !asksForDetail x) ++ fromEnd arguments ∧
      (readings.any fun r ↦ r.plain?.isNone) = (beforeEnd arguments).any asksForDetail := by
  induction arguments generalizing readings with
  | nil =>
      obtain rfl := Except.ok.inj h
      exact ⟨rfl, rfl⟩
  | cons argument arguments ih =>
      by_cases hend : argument = "--"
      · subst hend
        rw [readAll, if_pos rfl] at h
        obtain rfl := Except.ok.inj h
        rw [filterMap_plain?_map, beforeEnd_cons_end, fromEnd_cons_end, List.any_map]
        exact ⟨rfl, List.any_eq_false.mpr fun _ _ ↦ Bool.false_ne_true⟩
      · obtain ⟨r, later, hr, hlater, rfl⟩ := readAll_cons_of_ne hend h
        obtain ⟨hstop, hrest⟩ := List.forall_mem_cons.mp hstops
        obtain ⟨hplain, hdetail⟩ := ih hlater hrest
        rw [beforeEnd_cons_of_ne hend, fromEnd_cons_of_ne hend, List.any_cons, List.any_cons,
          hdetail]
        rcases readAs_of_readArgument hend hr with
          ⟨hasks, given, rfl, -⟩ | ⟨hasks, rfl | hstopped⟩
        · rw [List.filterMap_cons_none rfl, List.filter_cons_of_neg (by simp [hasks]), hplain,
            hasks]
          exact ⟨rfl, rfl⟩
        · have hkept : (Reading.plain argument :: later).filterMap Reading.plain? =
              argument :: later.filterMap Reading.plain? := List.filterMap_cons_some rfl
          rw [hkept, List.filter_cons_of_pos (by simp [hasks]), hplain, hasks]
          exact ⟨rfl, rfl⟩
        · exact absurd (hstop.symm.trans hstopped) Bool.false_ne_true

/-! ## Arguments of a run -/

/-- Only the first `--` is dropped, and none stands before it. -/
theorem erase_eq_remaining (arguments : List String) :
    ((beforeEnd arguments).filter (fun x ↦ !asksForDetail x) ++ fromEnd arguments).erase "--" =
      remaining arguments := by
  have hnotMem : "--" ∉ (beforeEnd arguments).filter fun x ↦ !asksForDetail x := fun hmem ↦
    notMem_beforeEnd arguments (List.mem_filter.mp hmem).1
  rw [List.erase_append_right _ hnotMem, remaining]
  rcases fromEnd_eq_nil_or_cons arguments with hnil | ⟨rest, hrest⟩
  · rw [hnil]
    rfl
  · rw [hrest, List.erase_cons_head]
    rfl

theorem eq_of_ofArguments (h : Request.ofArguments arguments = .run a) :
    a = ⟨remaining arguments, (beforeEnd arguments).any asksForDetail⟩ := by
  unfold Request.ofArguments at h
  split at h
  · next readings hreadings =>
      obtain ⟨hstops, ha⟩ := eq_of_gather h
      obtain ⟨hplain, hdetail⟩ := eq_of_readAll hreadings hstops
      rw [hplain, hdetail, Gathered.start, List.nil_append, erase_eq_remaining] at ha
      exact ha
  · cases h

/-- Plain arguments are all expressions, up to one `--`. -/
theorem gather_map_plain (hopen : g.closed = false) (arguments : List String) :
    gather g (arguments.map .plain) =
      Gathered.request { g with block := g.block ++ arguments } := by
  induction arguments generalizing g with
  | nil => rw [List.append_nil]; rfl
  | cons x arguments ih =>
      have hadd : g.addPlain x = { g with block := g.block ++ [x] } := by
        rw [Gathered.addPlain, hopen, if_neg Bool.false_ne_true]
      have hrest := ih (g := { g with block := g.block ++ [x] }) hopen
      rw [List.map_cons, gather, hadd, hrest, List.append_assoc]
      rfl

theorem ofArguments_of_readAll_eq_map {texts : List String}
    (h : readAll arguments = .ok (texts.map .plain)) (hne : texts.erase "--" ≠ []) :
    Request.ofArguments arguments = .run ⟨texts.erase "--", false⟩ := by
  rw [Request.ofArguments, h]
  refine (gather_map_plain rfl texts).trans (request_eq_run_iff.mpr ⟨rfl, ?_, ?_⟩)
  · rwa [Gathered.start, List.nil_append]
  · rw [Gathered.start, List.nil_append]

theorem ofArguments_end_cons (hne : arguments ≠ []) :
    Request.ofArguments ("--" :: arguments) = .run ⟨arguments, false⟩ := by
  have hall : readAll ("--" :: arguments) = .ok (("--" :: arguments).map .plain) := rfl
  have herase : ("--" :: arguments).erase "--" = arguments := List.erase_cons_head _ _
  rw [ofArguments_of_readAll_eq_map hall (herase.symm ▸ hne), herase]

theorem readAll_of_head (h : ∀ x ∈ arguments, x.toList.head? ≠ some '-') :
    readAll arguments = .ok (arguments.map .plain) := by
  induction arguments with
  | nil => rfl
  | cons x arguments ih =>
      obtain ⟨hx, hrest⟩ := List.forall_mem_cons.mp h
      have hend : x ≠ "--" := fun heq ↦ hx (heq ▸ rfl)
      rw [readAll, if_neg hend, readArgument_of_head hx, ok_bind, ih hrest]
      rfl

theorem ofArguments_of_head (hne : arguments ≠ [])
    (h : ∀ x ∈ arguments, x.toList.head? ≠ some '-') :
    Request.ofArguments arguments = .run ⟨arguments, false⟩ := by
  have hend : "--" ∉ arguments := fun hmem ↦ h "--" hmem rfl
  have herase : arguments.erase "--" = arguments := List.erase_of_not_mem hend
  rw [ofArguments_of_readAll_eq_map (readAll_of_head h) (herase.symm ▸ hne), herase]

/-- The expressions of a run are its arguments, unchanged and in order, without those that ask
for detail in front of the first `--` and without that `--`; there is at least one, and the
run is in detail exactly if an argument asked for it.  All arguments after a `--` in front
are expressions, and so are all that begin with no hyphen; `-v` before them only asks for
detail. -/
theorem expressions_of_arguments :
    (∀ arguments a, Request.ofArguments arguments = .run a →
      a.expressions = remaining arguments ∧
      (a.verbose = true ↔ ∃ x ∈ beforeEnd arguments, asksForDetail x = true) ∧
      a.expressions ≠ []) ∧
    ∀ arguments, arguments ≠ [] →
      (Request.ofArguments ("--" :: arguments) = .run ⟨arguments, false⟩ ∧
        Request.ofArguments ("-v" :: "--" :: arguments) = .run ⟨arguments, true⟩) ∧
      ((∀ x ∈ arguments, x.toList.head? ≠ some '-') →
        Request.ofArguments arguments = .run ⟨arguments, false⟩ ∧
          Request.ofArguments ("-v" :: arguments) = .run ⟨arguments, true⟩) := by
  constructor
  · intro arguments a h
    have hne := expressions_ne_nil h
    obtain rfl := eq_of_ofArguments h
    exact ⟨rfl, List.any_eq_true, hne⟩
  · intro arguments hne
    have hend := ofArguments_end_cons hne
    refine ⟨⟨hend, ofArguments_verbose_cons hend⟩, fun h ↦ ?_⟩
    have hplain := ofArguments_of_head hne h
    exact ⟨hplain, ofArguments_verbose_cons hplain⟩

/-- Expressions that look like options, in front of the first `--` and after it. -/
theorem expressions_of_arguments_hyphens :
    Request.ofArguments ["-v=vv", "--verb", "-3", "- 1", "--", "-v", "--", ""] =
        .run ⟨["-3", "- 1", "-v", "--", ""], true⟩ ∧
      remaining ["-v=vv", "--verb", "-3", "- 1", "--", "-v", "--", ""] =
        ["-3", "- 1", "-v", "--", ""] ∧
      (∃ x ∈ ["-v=vv", "--verb", "-3", "- 1"], asksForDetail x = true) ∧
      Request.ofArguments ["-v", "--", "-h", "--"] = .run ⟨["-h", "--"], true⟩ ∧
      Request.ofArguments ["2-1", ""] = .run ⟨["2-1", ""], false⟩ := by
  have hrun : Request.ofArguments ["-v=vv", "--verb", "-3", "- 1", "--", "-v", "--", ""] =
      .run ⟨["-3", "- 1", "-v", "--", ""], true⟩ := by decide
  obtain ⟨hread, hwritten⟩ := expressions_of_arguments
  obtain ⟨hexpressions, hverbose, -⟩ := hread _ _ hrun
  exact ⟨hrun, hexpressions.symm, hverbose.mp rfl,
    (hwritten ["-h", "--"] (by decide)).1.2,
    ((hwritten ["2-1", ""] (by decide)).2 (by decide)).1⟩

end CommandLine
end Reckoner
