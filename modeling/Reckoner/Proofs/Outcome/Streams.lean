import Reckoner.Proofs.Infix.Levels
import Reckoner.Proofs.Postfix.Holding
import Mathlib.Data.List.Chain

/-!
# Streams that a conversion writes

Evaluation takes any text as a stream: outside an operand a digit is a number by itself
and an unknown character is passed over.  A conversion never writes such a stream.
Operators are released only where no word goes on, and the next word begins with a
marker, so in the output a digit always follows a digit or a marker.  While such a
stream is read, an operand is open exactly after a digit or a marker, and holds nothing
but digits.
-/

namespace Reckoner

open Text Infix Postfix

/-- Only a digit needs something before it, a digit or a marker. -/
def Admits (before c : Char) : Prop :=
  c = marker ∨ isOperator c = true ∨ c.isDigit = true ∧ isOperandChar before = true

def Readable (before : Char) (chars : List Char) : Prop :=
  (before :: chars).IsChain Admits

variable {before c : Char} {x y tail : List Char}

theorem readable_nil (before : Char) : Readable before [] :=
  .singleton before

theorem readable_cons : Readable before (c :: x) ↔ Admits before c ∧ Readable c x :=
  List.isChain_cons_cons

theorem readable_append :
    Readable before (x ++ y) ↔ Readable before x ∧ Readable (x.getLastD before) y := by
  induction x generalizing before with
  | nil => exact (and_iff_right (readable_nil before)).symm
  | cons c x ih =>
      rw [List.cons_append, readable_cons, readable_cons, ih, and_assoc, List.getLastD_cons]

theorem admits_symbol (before : Char) (op : Operation) : Admits before op.symbol :=
  .inr (.inl (isOperator_symbol op))

theorem readable_symbols_append (hy : ∀ b, Readable b y) (level : Option Operation) :
    Readable before (symbols level ++ y) := by
  cases level with
  | none => exact hy before
  | some op => exact readable_cons.mpr ⟨admits_symbol before op, hy op.symbol⟩

theorem eq_marker_or_isDigit (h : isOperandChar c = true) : c = marker ∨ c.isDigit = true := by
  rw [isOperandChar, Bool.or_eq_true, beq_iff_eq] at h
  exact h.symm

theorem Admits.kind (h : Admits before c) :
    c.isDigit = true ∨ c = marker ∨ isOperator c = true := by
  rcases h with hmarker | hop | ⟨hdigit, -⟩
  · exact .inr (.inl hmarker)
  · exact .inr (.inr hop)
  · exact .inl hdigit

theorem Admits.isBlank_eq_false (h : Admits before c) : isBlank c = false := by
  rcases h.kind with hdigit | rfl | hop
  · exact isBlank_eq_false_of_isDigit hdigit
  · exact isBlank_marker
  · obtain ⟨op, rfl⟩ := isOperator_eq_true_iff.mp hop
    exact isBlank_symbol op

theorem Readable.exists_admits (h : Readable before x) (hc : c ∈ x) : ∃ b, Admits b c := by
  induction x generalizing before with
  | nil => cases hc
  | cons d x ih =>
      obtain ⟨hd, hx⟩ := readable_cons.mp h
      rcases List.mem_cons.mp hc with rfl | hc
      · exact ⟨before, hd⟩
      · exact ih hx hc

/-! ## What conversion releases -/

variable {inner : Option Operation} {outer : List (Option Operation)} {text out : List Char}
  {r : Stack Char}

/-- Where the text goes on with a word, what was released last is in an operand. -/
theorem readable_of_emit {last : Char}
    (hlast : isWord before = true → isOperandChar last = true)
    (h : emit .standard (waiting inner outer) (markAfter before text) = .ok (out, r))
    (htail : ∀ b, Readable b tail) : Readable last (out ++ tail) := by
  induction text generalizing before inner outer out last with
  | nil =>
      obtain ⟨rfl, -⟩ := parts_eq emit_nil h
      exact htail last
  | cons c text ih =>
      obtain ⟨a, q, later, hc, hrest, rfl⟩ := emit_markAfter_cons_eq_ok h
      obtain ⟨inner', outer', rfl, hturn⟩ := exists_turn hc
      by_cases hw : isWord c = true
      · obtain ⟨hoperand, rfl⟩ := hturn.of_word hw
        have hlater : Readable c (later ++ tail) := ih (fun _ ↦ hoperand) hrest
        have hadmits : ∀ b, isOperandChar b = true → Admits b c := by
          intro b hb
          rcases eq_marker_or_isDigit hoperand with hmarker | hdigit
          · exact .inl hmarker
          · exact .inr (.inr ⟨hdigit, hb⟩)
        by_cases hbefore : isWord before = true
        · have hrun : Readable last (c :: (later ++ tail)) :=
            readable_cons.mpr ⟨hadmits last (hlast hbefore), hlater⟩
          simpa [beginsWord, hbefore] using hrun
        · have hrun : Readable last (marker :: c :: (later ++ tail)) :=
            readable_cons.mpr ⟨.inl rfl, readable_cons.mpr ⟨hadmits marker rfl, hlater⟩⟩
          simpa [beginsWord, hw, hbefore] using hrun
      · rw [Bool.not_eq_true] at hw
        obtain ⟨level, rfl⟩ := hturn.of_not_word hw
        have hlater : ∀ b, Readable b (later ++ tail) := fun b ↦
          ih (fun hword ↦ absurd (hw.symm.trans hword) Bool.false_ne_true) hrest
        rw [beginsWord_eq_false hw, if_neg Bool.false_ne_true, List.nil_append, List.append_assoc]
        exact readable_symbols_append hlater level

theorem readable_of_convert {chars : List Char} (h : convert .standard text = .ok chars) :
    Readable ' ' chars := by
  obtain ⟨out, level, rfl, hemit⟩ := exists_emit_of_convert h
  have hspace : isWord ' ' = true → isOperandChar ' ' = true :=
    fun hword ↦ absurd hword Bool.false_ne_true
  have htail : ∀ b, Readable b (symbols level) := fun b ↦ by
    simpa using readable_symbols_append readable_nil level
  exact readable_of_emit hspace hemit htail

/-! ## How it is read -/

namespace Postfix

theorem operandValue_eq_error {w : List Char} {e : EvaluationError}
    (hw : ∀ c ∈ w, c.isDigit = true) (h : operandValue w = .error e) :
    e = .invalidExpression := by
  by_cases hne : w = []
  · rw [operandValue, if_pos hne] at h
    exact (Except.error.inj h).symm
  · rw [operandValue_digits hne hw] at h
    cases h

theorem combine_eq_error {op : Operation} {values : Stack Binary64} {e : EvaluationError}
    (h : Machine.combine op values = .error e) : e = .invalidExpression := by
  match values with
  | ⟨[]⟩ => exact (Except.error.inj h).symm
  | ⟨[_]⟩ => exact (Except.error.inj h).symm
  | ⟨_ :: _ :: _⟩ => cases h

namespace Machine

/-- After `before`, an operand is open if that belongs to one, and it holds digits. -/
structure Ready (m : Machine) (before : Char) : Prop where
  isSome_eq : m.operand?.isSome = isOperandChar before
  isDigit_of_mem : ∀ w, m.operand? = some w → ∀ c ∈ w.toList, c.isDigit = true

variable {m : Machine} {e : EvaluationError}

theorem ready_start : start.Ready ' ' :=
  ⟨rfl, fun _ h ↦ by cases h⟩

theorem ready_symbol (values : Stack Binary64) (op : Operation) :
    Ready ⟨values, none⟩ op.symbol :=
  ⟨(isOperandChar_eq_false_of_isWord (isWord_symbol op)).symm, fun _ h ↦ by cases h⟩

theorem Ready.close_eq_error (h : m.Ready before) (he : m.close = .error e) :
    e = .invalidExpression := by
  obtain ⟨values, operand?⟩ := m
  cases operand? with
  | none => cases he
  | some w =>
      cases hvalue : operandValue w.toList with
      | ok v =>
          simp only [close, hvalue] at he
          cases he
      | error e' =>
          simp only [close, hvalue] at he
          obtain rfl := Except.error.inj he
          exact operandValue_eq_error (h.isDigit_of_mem w rfl) hvalue

theorem Ready.settle_eq_error (h : m.Ready before) (he : m.settle = .error e) :
    e = .invalidExpression := by
  unfold settle at he
  split at he
  · cases he
  · exact h.close_eq_error he

theorem Ready.step (h : m.Ready before) (hc : Admits before c) :
    (∃ m', m.step c = .ok m' ∧ m'.Ready c) ∨ m.step c = .error .invalidExpression := by
  rcases hc with rfl | hop | ⟨hdigit, hbefore⟩
  · have hstep : m.step marker = m.settle.map fun values ↦ ⟨values, some #[]⟩ := by
      simp [Machine.step, isBlank_marker]
    rw [hstep]
    cases hsettle : m.settle with
    | ok values => exact .inl ⟨_, rfl, rfl, fun w hw ↦ by obtain rfl := Option.some.inj hw; simp⟩
    | error e =>
        obtain rfl := h.settle_eq_error hsettle
        exact .inr rfl
  · obtain ⟨op, rfl⟩ := isOperator_eq_true_iff.mp hop
    rw [step_symbol]
    cases hclose : m.close with
    | error e =>
        obtain rfl := h.close_eq_error hclose
        exact .inr rfl
    | ok values =>
        rw [ok_bind]
        cases hcombine : combine op values with
        | error e =>
            obtain rfl := combine_eq_error hcombine
            exact .inr rfl
        | ok values' => exact .inl ⟨_, rfl, ready_symbol values' op⟩
  · obtain ⟨values, operand?⟩ := m
    obtain ⟨w, rfl⟩ := Option.isSome_iff_exists.mp (h.isSome_eq.trans hbefore)
    refine .inl ⟨_, step_digit hdigit, by simp [isOperandChar, hdigit], fun w' hw' ↦ ?_⟩
    obtain rfl := Option.some.inj hw'
    intro d hd
    rw [Array.toList_push, List.mem_append, List.mem_singleton] at hd
    rcases hd with hd | rfl
    · exact h.isDigit_of_mem w rfl d hd
    · exact hdigit

theorem Ready.run (h : m.Ready before) (hx : Readable before x) :
    (∃ m', m.run x = .ok m' ∧ m'.Ready (x.getLastD before)) ∨
      m.run x = .error .invalidExpression := by
  induction x generalizing m before with
  | nil => exact .inl ⟨m, rfl, h⟩
  | cons c x ih =>
      obtain ⟨hc, hrest⟩ := readable_cons.mp hx
      rw [run_cons, List.getLastD_cons]
      rcases h.step hc with ⟨m', hstep, hready⟩ | herror
      · rw [hstep, ok_bind]
        exact ih hready hrest
      · rw [herror]
        exact .inr rfl

end Machine

variable {chars : List Char}

theorem error_of_evaluate (h : Readable ' ' chars) {e : EvaluationError}
    (he : evaluate (String.ofList (spaced chars)) = .error e) :
    e = .invalidExpression ∨
      ∃ values : List Binary64, 2 ≤ values.length ∧
        e = .remainingOperands (String.ofList (spaced chars)) values := by
  rw [evaluate, String.toList_ofList, Machine.run_spaced] at he
  rcases Machine.ready_start.run h with ⟨m, hrun, hready⟩ | hrun
  · rw [hrun, ok_bind] at he
    rcases bind_eq_error_iff.mp he with hsettle | ⟨values, -, hanswer⟩
    · exact .inl (hready.settle_eq_error hsettle)
    · obtain ⟨htwo, he⟩ := answer_eq_error hanswer
      refine .inr ⟨values.toList, ?_, he⟩
      rw [Stack.toList, List.length_reverse]
      exact htwo
  · rw [hrun] at he
    exact .inl (Except.error.inj he).symm

/-- Outside an operand nothing is met but blanks, markers and operators. -/
theorem kind_of_run_of_operand?_eq_none (h : Readable ' ' chars) {m : Machine}
    (hsplit : spaced chars = x ++ c :: y) (hrun : Machine.start.run x = .ok m)
    (hnone : m.operand? = none) : isBlank c = true ∨ c = marker ∨ isOperator c = true := by
  by_cases hblank : isBlank c = true
  · exact .inl hblank
  have hvisible : chars.filter (fun d ↦ !isBlank d) = chars := by
    rw [List.filter_eq_self]
    intro d hd
    obtain ⟨b, hb⟩ := h.exists_admits hd
    rw [hb.isBlank_eq_false, Bool.not_false]
  have hchars : chars = x.filter (fun d ↦ !isBlank d) ++ c :: y.filter fun d ↦ !isBlank d := by
    rw [← hvisible, ← Machine.filter_visible_spaced, hsplit, List.filter_append,
      List.filter_cons_of_pos (by simpa using hblank)]
  rw [hchars, readable_append, readable_cons] at h
  obtain ⟨hx, hc, -⟩ := h
  rw [← Machine.run_filter_visible] at hrun
  rcases Machine.ready_start.run hx with ⟨m', hrun', hready⟩ | herror
  · obtain rfl := Except.ok.inj (hrun'.symm.trans hrun)
    have hclosed := hready.isSome_eq
    rw [hnone] at hclosed
    rcases hc with hmarker | hop | ⟨-, hopen⟩
    · exact .inr (.inl hmarker)
    · exact .inr (.inr hop)
    · exact absurd (hclosed.trans hopen) Bool.false_ne_true
  · exact absurd (herror.symm.trans hrun) error_ne_ok

/-! ## What is passed over -/

theorem snd_foldl_of_not_ignores
    {note : Except EvaluationError Machine × Array Char → Char →
      Except EvaluationError Machine × Array Char}
    (herror : ∀ e skipped c, note (.error e, skipped) c = (.error e, skipped))
    (hok : ∀ m skipped c, m.ignores c = false → note (.ok m, skipped) c = (m.step c, skipped))
    {stream : List Char} {m : Machine} {skipped : Array Char}
    (h : ∀ x c y m', stream = x ++ c :: y → m.run x = .ok m' → m'.ignores c = false) :
    (stream.foldl note (.ok m, skipped)).2 = skipped := by
  induction stream generalizing m with
  | nil => rfl
  | cons c stream ih =>
      rw [List.foldl_cons, hok m skipped c (h [] c stream m rfl rfl)]
      cases hstep : m.step c with
      | ok m₁ =>
          apply ih
          rintro x d y m' rfl hrun
          refine h (c :: x) d y m' rfl ?_
          rw [Machine.run_cons, hstep, ok_bind, hrun]
      | error e =>
          clear h ih hstep
          induction stream with
          | nil => rfl
          | cons d stream ih => rw [List.foldl_cons, herror, ih]

theorem ignored_eq_nil {stream : String}
    (h : ∀ x c y m, stream.toList = x ++ c :: y → Machine.start.run x = .ok m →
      m.ignores c = false) : ignored stream = [] := by
  apply Array.toList_eq_nil_iff.mpr
  refine snd_foldl_of_not_ignores (fun e skipped c ↦ rfl) (fun m skipped c hc ↦ ?_) h
  simp [hc]

theorem ignored_spaced_eq_nil (h : Readable ' ' chars) :
    ignored (String.ofList (spaced chars)) = [] := by
  apply ignored_eq_nil
  intro x c y m hsplit hrun
  rw [String.toList_ofList] at hsplit
  cases hoperand : m.operand? with
  | some w => simp [Machine.ignores, hoperand]
  | none =>
      rcases kind_of_run_of_operand?_eq_none h hsplit hrun hoperand with hblank | rfl | hop
      · simp [Machine.ignores, hblank]
      · simp [Machine.ignores]
      · obtain ⟨op, rfl⟩ := isOperator_eq_true_iff.mp hop
        simp [Machine.ignores]

end Postfix

end Reckoner
