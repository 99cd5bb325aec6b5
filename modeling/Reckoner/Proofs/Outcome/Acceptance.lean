import Reckoner.Proofs.Infix.Release
import Reckoner.Proofs.Postfix.Holding
import Mathlib.Data.Finset.Max

/-!
# Which texts can be evaluated

A text without markers that converts is evaluated by its counts alone: every operator
takes one value away where it is released, and every run of digits brings one.  The
induction is on the text, with the levels that wait and the machine that has read what
was released so far.
-/

namespace Reckoner

open Text Infix Postfix

/-- Running `chars` wants an operand unless `enough`, and else leaves as many values as
there are more numbers than operators. -/
def Tally (m : Machine) (chars : List Char) (enough : Prop) (operators numbers : Nat) :
    Prop :=
  (enough → ∃ m' vs, m.run chars = .ok m' ∧ m'.Holds vs ∧ vs.length + operators = numbers) ∧
    (¬enough → m.run chars = .error .invalidExpression)

namespace Tally

variable {m m₁ : Machine} {vs : List Binary64} {x y : List Char} {enough : Prop} {k n : Nat}

theorem of_run (hrun : m.run x = .ok m₁) (h : Tally m₁ y enough k n) :
    Tally m (x ++ y) enough k n := by
  constructor
  · intro henough
    obtain ⟨m', vs, hrest, hholds, hlength⟩ := h.1 henough
    exact ⟨m', vs, Machine.run_append_of_ok hrun hrest, hholds, hlength⟩
  · intro henough
    rw [Machine.run_append, hrun, ok_bind, h.2 henough]

theorem symbol (hm : m.Holds vs) (op : Operation)
    (h : ∀ m₁ vs₁, m₁.Holds vs₁ → vs₁.length + 1 = vs.length → Tally m₁ y enough k n) :
    Tally m (op.symbol :: y) (2 ≤ vs.length ∧ enough) (k + 1) (n + 1) := by
  match vs, hm with
  | b :: a :: vs, hm =>
      have hrun : m.run [op.symbol] = .ok ⟨⟨op.apply a b :: vs⟩, none⟩ := by
        rw [Machine.run_cons, hm.step_symbol, ok_bind, Machine.run_nil]
      obtain ⟨hok, herror⟩ := of_run hrun (h _ _ (Machine.holds_of_none _) rfl)
      constructor
      · intro henough
        obtain ⟨m', vs', hrest, hholds, hlength⟩ := hok henough.2
        exact ⟨m', vs', hrest, hholds, by omega⟩
      · intro henough
        exact herror fun h' ↦ henough ⟨by simp, h'⟩
  | [], hm =>
      refine ⟨fun henough ↦ absurd henough.1 (by simp), fun _ ↦ ?_⟩
      rw [Machine.run_cons, hm.step_symbol_eq_error (by simp), error_bind]
  | [v], hm =>
      refine ⟨fun henough ↦ absurd henough.1 (by simp), fun _ ↦ ?_⟩
      rw [Machine.run_cons, hm.step_symbol_eq_error (by simp), error_bind]

variable {before c : Char} {text : List Char} {points : List Nat} {held : Nat}

/-- A level that releases its operator, if it has one, at once. -/
theorem release (hm : m.Holds vs) (level : Option Operation) {runs : Nat}
    (h : ∀ m₁ vs₁, m₁.Holds vs₁ →
      Tally m₁ y (SuppliedFrom vs₁.length before (points.map (· + 1)) text)
        (points.map (· + 1)).length (vs₁.length + runs)) :
    Tally m (symbols level ++ y)
      (SuppliedFrom vs.length before
        ((level.map fun _ ↦ 0).toList ++ points.map (· + 1)) text)
      ((level.map fun _ ↦ 0).toList ++ points.map (· + 1)).length (vs.length + runs) := by
  cases level with
  | none => exact h m vs hm
  | some op =>
      have hone : ∀ m₁ vs₁, m₁.Holds vs₁ → vs₁.length + 1 = vs.length →
          Tally m₁ y (SuppliedFrom (vs.length - 1) before (points.map (· + 1)) text)
            (points.map (· + 1)).length (vs.length - 1 + runs) := by
        intro m₁ vs₁ hm₁ hlength
        have hvs : vs.length - 1 = vs₁.length := by omega
        rw [hvs]
        exact h m₁ vs₁ hm₁
      have hsymbol := symbol hm op hone
      change Tally m (op.symbol :: y) (SuppliedFrom vs.length before
        (0 :: points.map (· + 1)) text) ((points.map (· + 1)).length + 1) (vs.length + runs)
      rw [suppliedFrom_zero_cons]
      constructor
      · intro henough
        have htwo := henough.1
        obtain ⟨m', vs', hrun, hholds, hlength⟩ := hsymbol.1 henough
        exact ⟨m', vs', hrun, hholds, by omega⟩
      · exact hsymbol.2

/-- A character that brings a value if a run of digits begins with it. -/
theorem cons
    (h : Tally m y
      (SuppliedFrom (held + if c.isDigit && !before.isDigit then 1 else 0) c points text)
      points.length ((held + if c.isDigit && !before.isDigit then 1 else 0) +
        runsAfter c text)) :
    Tally m y (SuppliedFrom held before (points.map (· + 1)) (c :: text))
      (points.map (· + 1)).length (held + runsAfter before (c :: text)) := by
  rw [suppliedFrom_cons, runsAfter_cons, ← Nat.add_assoc, List.length_map]
  exact h

theorem cons_of_not_digit (hc : c.isDigit = false)
    (h : Tally m y (SuppliedFrom held c points text) points.length (held + runsAfter c text)) :
    Tally m y (SuppliedFrom held before (points.map (· + 1)) (c :: text))
      (points.map (· + 1)).length (held + runsAfter before (c :: text)) := by
  apply cons
  simpa [hc] using h

theorem of_perm {points' : List Nat} (hperm : points.Perm points')
    (h : Tally m y (SuppliedFrom held before points' text) points'.length n) :
    Tally m y (SuppliedFrom held before points text) points.length n := by
  rw [suppliedFrom_congr_perm hperm, hperm.length_eq]
  exact h

end Tally

variable {inner : Option Operation} {outer : List (Option Operation)} {before c : Char}
  {text out : List Char} {p r : Stack Char}

/-- A digit, marked where it begins a word, brings a value where it begins a run. -/
theorem Postfix.Machine.Holds.run_marked_digit {m : Machine} {vs : List Binary64} (hm : m.Holds vs)
    (hword : isWord before = before.isDigit)
    (hopen : before.isDigit = true → m.operand?.isSome = true) (hdigit : c.isDigit = true) :
    ∃ m' vs', m.run ((if beginsWord before c then [marker] else []) ++ [c]) = .ok m' ∧
      m'.Holds vs' ∧
      vs'.length = vs.length + (if c.isDigit && !before.isDigit then 1 else 0) ∧
      m'.operand?.isSome = true := by
  have hw : isWord c = true := isWord_of_isDigit hdigit
  cases hbefore : before.isDigit with
  | false =>
      have hbegins : beginsWord before c = true := by
        simp [beginsWord, hw, hword, hbefore]
      obtain ⟨m', v, hrun, hm', hopen'⟩ := hm.run_marker_digit hdigit
      rw [hbegins, if_pos rfl]
      exact ⟨m', v :: vs, hrun, hm', by simp [hdigit], hopen'⟩
  | true =>
      have hbegins : beginsWord before c = false := by
        simp [beginsWord, hword, hbefore]
      obtain ⟨m', vs', hrun, hm', hlength, hopen'⟩ := hm.run_digit (hopen hbefore) hdigit
      rw [hbegins, if_neg Bool.false_ne_true]
      exact ⟨m', vs', hrun, hm', by simpa using hlength, hopen'⟩

/-- What a text releases, with what waits at its end, is tallied by its schedule. -/
theorem tally_emit {m : Machine} {vs : List Binary64} (hm : m.Holds vs)
    (hword : isWord before = before.isDigit)
    (hopen : before.isDigit = true → m.operand?.isSome = true) (hmark : marker ∉ text)
    (hemit : emit .standard (waiting inner outer) (markAfter before text) = .ok (out, p))
    (hp : p.items.any isParenthesis = false) :
    Tally m (out ++ p.items)
      (SuppliedFrom vs.length before (schedule (inner :: outer) text) text)
      (schedule (inner :: outer) text).length (vs.length + runsAfter before text) := by
  induction text generalizing m vs before inner outer out with
  | nil =>
      obtain ⟨rfl, rfl⟩ := parts_eq emit_nil hemit
      rw [any_isParenthesis_waiting] at hp
      obtain rfl : outer = [] := by simpa using hp
      have hend : Tally m (symbols inner ++ [])
          (SuppliedFrom vs.length before ((inner.map fun _ ↦ 0).toList ++ [].map (· + 1)) [])
          ((inner.map fun _ ↦ 0).toList ++ [].map (· + 1)).length (vs.length + 0) := by
        apply Tally.release hm
        intro m₁ vs₁ hm₁
        refine ⟨fun _ ↦ ⟨m₁, vs₁, rfl, hm₁, rfl⟩, fun hnot ↦ absurd ?_ hnot⟩
        intro n hn
        cases hn
      simpa [waiting, schedule, dues, ownPoints, operatorPlaces, reach, runsAfter] using hend
  | cons c text ih =>
      obtain ⟨a, q, later, hc, hrest, hout⟩ := emit_markAfter_cons_eq_ok hemit
      have hne : c ≠ marker := fun h ↦ hmark (h ▸ List.mem_cons_self)
      have hmark' : marker ∉ text := fun h ↦ hmark (List.mem_cons_of_mem c h)
      rcases kind_of_respond_eq_ok hc hne with hblank | hdigit | ⟨op, rfl⟩ | rfl | rfl
      · -- A blank releases nothing.
        have hw : isWord c = false := isWord_eq_false_of_isBlank hblank
        have hd := isDigit_eq_false_of_not_word hw
        obtain ⟨later, hlater, rfl⟩ :=
          emit_markAfter_cons_of_not_word hw (respond_blank hblank) hemit
        rw [schedule_cons_of_neutral (isOperator_eq_false_of_isBlank hblank)
          (isParenthesis_eq_false_of_isBlank hblank)]
        apply Tally.cons_of_not_digit hd
        exact ih hm (hw.trans hd.symm) (by simp [hd]) hmark' hlater
      · -- A digit opens an operand or goes on with the one that is open.
        have hw : isWord c = true := isWord_of_isDigit hdigit
        obtain ⟨rfl, rfl⟩ := parts_eq (respond_digit hdigit) hc
        rw [schedule_cons_of_neutral (isOperator_eq_false_of_isWord hw)
          (isParenthesis_eq_false_of_isWord hw)]
        apply Tally.cons
        obtain ⟨m', vs', hrun, hm', hlength, hopen'⟩ := hm.run_marked_digit hword hopen hdigit
        have htail := ih hm' (hw.trans hdigit.symm) (fun _ ↦ hopen') hmark' hrest
        rw [hlength] at htail
        rw [hout, List.append_assoc]
        exact Tally.of_run hrun htail
      · -- An operator releases the one before it in its group.
        have hw := isWord_symbol op
        have hd := isDigit_eq_false_of_not_word hw
        obtain ⟨later, hlater, rfl⟩ :=
          emit_markAfter_cons_of_not_word hw (respond_symbol op) hemit
        rw [List.append_assoc]
        apply Tally.of_perm (schedule_cons_symbol_perm op)
        apply Tally.release hm
        intro m₁ vs₁ hm₁
        apply Tally.cons_of_not_digit hd
        exact ih hm₁ (hw.trans hd.symm) (by simp [hd]) hmark' hlater
      · obtain ⟨later, hlater, rfl⟩ :=
          emit_markAfter_cons_of_not_word rfl respond_opening_standard hemit
        rw [schedule_cons_opening]
        apply Tally.cons_of_not_digit rfl
        exact ih hm rfl (fun h ↦ absurd h Bool.false_ne_true) hmark' hlater
      · cases outer with
        | nil => exact absurd (respond_closing_standard_nil.symm.trans hc) error_ne_ok
        | cons level outer =>
            obtain ⟨later, hlater, rfl⟩ :=
              emit_markAfter_cons_of_not_word rfl respond_closing_standard hemit
            rw [schedule_cons_closing, List.append_assoc]
            apply Tally.release hm
            intro m₁ vs₁ hm₁
            apply Tally.cons_of_not_digit rfl
            exact ih hm₁ rfl (fun h ↦ absurd h Bool.false_ne_true) hmark' hlater

/-! ## Evaluating what a text is converted to -/

theorem tally_convert {text chars : List Char} (hmark : marker ∉ text)
    (h : convert .standard text = .ok chars) :
    Tally .start chars (Supplied text) (operatorPlaces text).length (digitRuns text) := by
  obtain ⟨out, p, hemit, hp, rfl⟩ := convertMarked_eq_ok_iff.mp h
  have hwaiting : emit .standard (waiting none []) (markAfter ' ' text) = .ok (out, p) := hemit
  have hopen : ' '.isDigit = true → Machine.start.operand?.isSome = true :=
    fun h ↦ absurd h Bool.false_ne_true
  have htally := tally_emit Machine.holds_start rfl hopen hmark hwaiting hp
  rw [List.length_nil, ← supplied_iff, Nat.zero_add, schedule_none_nil, ownPoints,
    List.length_map] at htally
  exact htally

/-- A supplied text leaves the surplus of its numbers. -/
theorem exists_values_of_supplied {text stream : String} (hmark : marker ∉ text.toList)
    (hstream : toPostfix .standard text = .ok stream) (h : Supplied text.toList) :
    ∃ vs : List Binary64, evaluate stream = answer stream ⟨vs⟩ ∧
      vs.length + (operatorPlaces text.toList).length = digitRuns text.toList := by
  obtain ⟨chars, hchars, rfl⟩ := toPostfix_eq_ok_iff.mp hstream
  obtain ⟨m, vs, hrun, hholds, hlength⟩ := (tally_convert hmark hchars).1 h
  exact ⟨vs, evaluate_of_run hrun hholds, hlength⟩

theorem evaluate_eq_error_of_not_supplied {text stream : String}
    (hmark : marker ∉ text.toList) (hstream : toPostfix .standard text = .ok stream)
    (h : ¬Supplied text.toList) : evaluate stream = .error .invalidExpression := by
  obtain ⟨chars, hchars, rfl⟩ := toPostfix_eq_ok_iff.mp hstream
  exact evaluate_of_run_error ((tally_convert hmark hchars).2 h)

theorem runsAfter_take_le (before : Char) (text : List Char) (n : Nat) :
    runsAfter before (text.take n) ≤ runsAfter before text := by
  induction text generalizing before n with
  | nil => simp
  | cons c text ih =>
      cases n with
      | zero => simp [runsAfter]
      | succ n =>
          rw [List.take_succ_cons, runsAfter_cons, runsAfter_cons]
          exact Nat.add_le_add_left (ih c n) _

/-- The last release is followed by a value. -/
theorem Supplied.length_lt {text : List Char} (h : Supplied text)
    (hne : operatorPlaces text ≠ []) :
    (operatorPlaces text).length < digitRuns text := by
  obtain ⟨i, hi, hlast⟩ := (operatorPlaces text).toFinset.exists_max_image (releasePoint text)
    (List.toFinset_nonempty_iff _ |>.mpr hne)
  have hcount : (operatorPlaces text).countP
      (fun k ↦ releasePoint text k ≤ releasePoint text i) = (operatorPlaces text).length := by
    rw [List.countP_eq_length]
    intro k hk
    simpa using hlast k (List.mem_toFinset.mpr hk)
  have hsupply := h i (List.mem_toFinset.mp hi)
  have htake : digitRuns (text.take (releasePoint text i)) ≤ digitRuns text :=
    runsAfter_take_le ' ' text _
  omega

theorem supplied_of_operatorPlaces_eq_nil {text : List Char} (h : operatorPlaces text = []) :
    Supplied text := by
  intro i hi
  rw [h] at hi
  cases hi

section Evaluation

variable {text stream : String} (hmark : marker ∉ text.toList)
  (hstream : toPostfix .standard text = .ok stream)

include hmark hstream

theorem evaluate_eq_nan (hruns : digitRuns text.toList = 0)
    (hplaces : operatorPlaces text.toList = []) : evaluate stream = .ok .nan := by
  obtain ⟨vs, heval, hlength⟩ := exists_values_of_supplied hmark hstream
    (supplied_of_operatorPlaces_eq_nil hplaces)
  obtain rfl : vs = [] := by
    rw [← List.length_eq_zero_iff]
    omega
  exact heval

theorem exists_evaluate_eq_ok (h : Supplied text.toList)
    (hruns : digitRuns text.toList = (operatorPlaces text.toList).length + 1) :
    ∃ value, evaluate stream = .ok value := by
  obtain ⟨vs, heval, hlength⟩ := exists_values_of_supplied hmark hstream h
  obtain ⟨value, rfl⟩ : ∃ value, vs = [value] := by
    rw [← List.length_eq_one_iff]
    omega
  exact ⟨value, heval⟩

theorem exists_remaining (h : Supplied text.toList)
    (hruns : (operatorPlaces text.toList).length + 2 ≤ digitRuns text.toList) :
    ∃ values, evaluate stream = .error (.remainingOperands stream values) := by
  obtain ⟨vs, heval, hlength⟩ := exists_values_of_supplied hmark hstream h
  have htwo : 2 ≤ vs.length := by omega
  exact ⟨vs.reverse, heval.trans (answer_of_two_le stream htwo)⟩

theorem counts_of_evaluate_eq_ok {value : Binary64} (hvalue : evaluate stream = .ok value) :
    (digitRuns text.toList = 0 ∧ operatorPlaces text.toList = []) ∨
      Supplied text.toList ∧
        digitRuns text.toList = (operatorPlaces text.toList).length + 1 := by
  by_cases h : Supplied text.toList
  · obtain ⟨vs, heval, hlength⟩ := exists_values_of_supplied hmark hstream h
    match vs, heval, hlength with
    | [], _, hlength =>
        left
        have hplaces : operatorPlaces text.toList = [] := by
          by_contra hne
          have hlt := Supplied.length_lt h hne
          rw [List.length_nil] at hlength
          omega
        rw [hplaces] at hlength
        exact ⟨hlength.symm, hplaces⟩
    | [v], _, hlength =>
        right
        exact ⟨h, by rw [← hlength, List.length_singleton, Nat.add_comm]⟩
    | v :: w :: vs, heval, _ =>
        rw [answer_of_two_le stream (by simp)] at heval
        exact absurd (heval.symm.trans hvalue) error_ne_ok
  · have herror := evaluate_eq_error_of_not_supplied hmark hstream h
    exact absurd (herror.symm.trans hvalue) error_ne_ok

end Evaluation

/-- A convertible text without markers has a value exactly if it holds neither numbers
nor operators, or if it is supplied and holds one number more than operators.  Where
it has none, it lacks an operand if it is not supplied, and has operands left over if
it is. -/
theorem evaluate_toPostfix_iff {text stream : String} (hmark : marker ∉ text.toList)
    (hstream : toPostfix .standard text = .ok stream) :
    ((∃ value, evaluate stream = .ok value) ↔
        (digitRuns text.toList = 0 ∧ operatorPlaces text.toList = []) ∨
          Supplied text.toList ∧
            digitRuns text.toList = (operatorPlaces text.toList).length + 1) ∧
      (digitRuns text.toList = 0 → operatorPlaces text.toList = [] →
        evaluate stream = .ok .nan) ∧
      (¬Supplied text.toList → evaluate stream = .error .invalidExpression) ∧
      (Supplied text.toList →
        (operatorPlaces text.toList).length + 2 ≤ digitRuns text.toList →
          ∃ values, evaluate stream = .error (.remainingOperands stream values)) := by
  refine ⟨⟨?_, ?_⟩, evaluate_eq_nan hmark hstream,
    evaluate_eq_error_of_not_supplied hmark hstream, exists_remaining hmark hstream⟩
  · rintro ⟨value, hvalue⟩
    exact counts_of_evaluate_eq_ok hmark hstream hvalue
  · rintro (⟨hruns, hplaces⟩ | ⟨hsupplied, hruns⟩)
    · exact ⟨.nan, evaluate_eq_nan hmark hstream hruns hplaces⟩
    · exact exists_evaluate_eq_ok hmark hstream hsupplied hruns

theorem evaluate_operator_after_both :
    marker ∉ "1 2(+) ".toList ∧ toPostfix .standard "1 2(+) " = .ok "_ 1 _ 2 +" ∧
      Supplied "1 2(+) ".toList ∧ ∃ value, evaluate "_ 1 _ 2 +" = .ok value := by
  have hmark : marker ∉ "1 2(+) ".toList := by decide
  have hstream : toPostfix .standard "1 2(+) " = .ok "_ 1 _ 2 +" := by decide
  have hsupplied : Supplied "1 2(+) ".toList := by decide
  refine ⟨hmark, hstream, hsupplied, ?_⟩
  exact (evaluate_toPostfix_iff hmark hstream).1.mpr (.inr ⟨hsupplied, by decide⟩)

end Reckoner
