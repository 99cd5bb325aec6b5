import Reckoner.Proofs.Infix.Emission
import Mathlib.Data.List.TakeWhile

/-!
# Responses to the kinds of characters

Under a plain table, one whose operators are neither word characters nor blanks nor
parentheses, every character has one kind, and what conversion does with it is one
equation for each kind.
-/

namespace Reckoner

open Text Infix

/-- No operator of the table is a word character, a blank or a parenthesis. -/
def OperatorTable.Plain (t : OperatorTable) : Prop :=
  ∀ c f, t c = some f → isWord c = false ∧ isBlank c = false ∧ isParenthesis c = false

namespace Infix

variable {t : OperatorTable} {p : Stack Char}

theorem respond_operand {c : Char} (hb : isBlank c = false) (hc : isOperandChar c = true) :
    respond t p c = .ok ([c], p) := by
  simp [respond, hb, hc]

theorem respond_digit {c : Char} (h : c.isDigit = true) : respond t p c = .ok ([c], p) :=
  respond_operand (isBlank_eq_false_of_isDigit h) (by simp [isOperandChar, h])

theorem respond_marker : respond t p marker = .ok ([marker], p) :=
  respond_operand isBlank_marker (by simp [isOperandChar])

theorem emit_operand {w : List Char} (h : ∀ c ∈ w, c.isDigit = true) :
    emit t p (marker :: w) = .ok (marker :: w, p) := by
  have hdigits : emit t p w = .ok (w, p) := by
    induction w with
    | nil => rfl
    | cons c w ih =>
        have hrest := ih fun d hd ↦ h d (List.mem_cons_of_mem c hd)
        exact emit_cons_of_ok (respond_digit (h c List.mem_cons_self)) hrest
  exact emit_cons_of_ok respond_marker hdigits

theorem isOperandChar_eq_false_of_isWord {c : Char} (h : isWord c = false) :
    isOperandChar c = false := by
  rw [← Bool.not_eq_true]
  intro hc
  have hword : isWord c = true := by
    rcases (Bool.or_eq_true _ _).mp hc with hdigit | hmarker
    · exact isWord_of_isDigit hdigit
    · obtain rfl : c = marker := by simpa using hmarker
      decide
  exact Bool.false_ne_true (h.symm.trans hword)

theorem isBlank_eq_false_of_isOperandChar {c : Char} (h : isOperandChar c = true) :
    isBlank c = false := by
  rw [← Bool.not_eq_true]
  intro hblank
  have hoperand := isOperandChar_eq_false_of_isWord (isWord_eq_false_of_isBlank hblank)
  exact Bool.false_ne_true (hoperand.symm.trans h)

/-- An operator releases those above the first entry that stays. -/
theorem respond_operator (plain : t.Plain) {c : Char} {f : Fixity} (hc : t c = some f)
    {above below : List Char} (habove : ∀ d ∈ above, t.releases f d = true)
    (hbelow : ∀ d ∈ below.head?, t.releases f d = false) :
    respond t ⟨above ++ below⟩ c = .ok (above, ⟨c :: below⟩) := by
  obtain ⟨hword, hblank, -⟩ := plain c f hc
  have htake : below.takeWhile (t.releases f) = [] := by
    cases below with
    | nil => rfl
    | cons d below => simp [hbelow d (by simp)]
  have hdrop : below.dropWhile (t.releases f) = below := by
    cases below with
    | nil => rfl
    | cons d below => simp [hbelow d (by simp)]
  simp only [respond, hblank, isOperandChar_eq_false_of_isWord hword, hc, Stack.popWhile,
    Stack.push]
  rw [List.takeWhile_append_of_pos habove, List.dropWhile_append_of_pos habove, htake, hdrop,
    List.append_nil]
  rfl

theorem OperatorTable.Plain.eq_none {c : Char} (plain : t.Plain)
    (hc : isParenthesis c = true) : t c = none := by
  cases h : t c with
  | none => rfl
  | some f => exact absurd (hc.symm.trans (plain c f h).2.2) Bool.noConfusion

/-- No operator releases a parenthesis. -/
theorem OperatorTable.Plain.releases_eq_false {c : Char} (plain : t.Plain) (f : Fixity)
    (hc : isParenthesis c = true) : t.releases f c = false := by
  rw [OperatorTable.releases, OperatorTable.Plain.eq_none plain hc]

theorem respond_opening (plain : t.Plain) : respond t p '(' = .ok ([], p.push '(') := by
  have hnone : t '(' = none := OperatorTable.Plain.eq_none plain rfl
  have hblank : isBlank '(' = false := rfl
  have hoperand : isOperandChar '(' = false := rfl
  simp [respond, hblank, hoperand, hnone]

theorem respond_closing (plain : t.Plain) : respond t p ')' = closeGroup p := by
  have hnone : t ')' = none := OperatorTable.Plain.eq_none plain rfl
  have hblank : isBlank ')' = false := rfl
  have hoperand : isOperandChar ')' = false := rfl
  simp [respond, hblank, hoperand, hnone]

theorem bne_of_notMem {c : Char} {w : List Char} (h : c ∉ w) :
    ∀ d ∈ w, (d != c) = true := by
  intro d hd
  have hne : d ≠ c := by
    rintro rfl
    exact h hd
  simpa using hne

theorem closeGroup_of_notMem {above below : List Char} (h : '(' ∉ above) :
    closeGroup ⟨above ++ '(' :: below⟩ = .ok (above, ⟨below⟩) := by
  have habove := bne_of_notMem h
  simp [closeGroup, Stack.popWhile, Stack.pop?, List.takeWhile_append_of_pos habove,
    List.dropWhile_append_of_pos habove]

theorem closeGroup_eq_error_of_notMem {above : List Char} (h : '(' ∉ above) :
    closeGroup ⟨above⟩ = .error .mismatchedParentheses := by
  have habove := bne_of_notMem h
  have hdrop : above.dropWhile (· != '(') = [] := List.dropWhile_eq_nil_iff.mpr habove
  simp only [closeGroup, Stack.popWhile, hdrop]
  rfl

theorem respond_eq_error {c : Char} (hblank : isBlank c = false)
    (hoperand : isOperandChar c = false) (hnone : t c = none)
    (hparen : isParenthesis c = false) : respond t p c = .error (.unknownToken c) := by
  have hne : c ≠ '(' ∧ c ≠ ')' := by simpa [isParenthesis] using hparen
  simp [respond, hblank, hoperand, hnone, hne.1, hne.2]

/-! ## Errors -/

theorem closeGroup_eq_error {e : SyntaxError} (h : closeGroup p = .error e) :
    e = .mismatchedParentheses := by
  simp only [closeGroup] at h
  split at h
  · cases h
  · exact (Except.error.inj h).symm

/-- A character that is refused by itself, and not for what waits. -/
def Unknown (t : OperatorTable) (c : Char) : Prop :=
  isBlank c = false ∧ isOperandChar c = false ∧ t c = none ∧ isParenthesis c = false

theorem error_of_respond {c : Char} {e : SyntaxError} (h : respond t p c = .error e) :
    e = .mismatchedParentheses ∨ Unknown t c ∧ e = .unknownToken c := by
  unfold respond at h
  by_cases hblank : isBlank c = true
  · rw [if_pos hblank] at h
    cases h
  rw [if_neg hblank] at h
  by_cases hoperand : isOperandChar c = true
  · rw [if_pos hoperand] at h
    cases h
  rw [if_neg hoperand] at h
  cases hc : t c with
  | some f =>
      rw [hc] at h
      cases h
  | none =>
      simp only [hc] at h
      by_cases hopening : c = '('
      · rw [if_pos hopening] at h
        cases h
      rw [if_neg hopening] at h
      by_cases hclosing : c = ')'
      · rw [if_pos hclosing] at h
        exact .inl (closeGroup_eq_error h)
      · rw [if_neg hclosing] at h
        refine .inr ⟨⟨by simpa using hblank, by simpa using hoperand, hc, ?_⟩,
          (Except.error.inj h).symm⟩
        simp [isParenthesis, hopening, hclosing]

theorem error_of_emit {x : List Char} {e : SyntaxError} (h : emit t p x = .error e) :
    e = .mismatchedParentheses ∨ ∃ c ∈ x, Unknown t c ∧ e = .unknownToken c := by
  induction x generalizing p with
  | nil => cases h
  | cons c x ih =>
      rw [emit_cons] at h
      rcases bind_eq_error_iff.mp h with hc | ⟨now, -, hrest⟩
      · rcases error_of_respond hc with hmismatched | hunknown
        · exact .inl hmismatched
        · exact .inr ⟨c, List.mem_cons_self, hunknown⟩
      · rcases ih (map_eq_error_iff.mp hrest) with hmismatched | ⟨d, hd, hunknown⟩
        · exact .inl hmismatched
        · exact .inr ⟨d, List.mem_cons_of_mem c hd, hunknown⟩

/-! ## Marked texts -/

theorem mem_of_mem_markAfter {before c : Char} {text : List Char} (h : c ∈ markAfter before text)
    (hne : c ≠ marker) : c ∈ text := by
  induction text generalizing before with
  | nil => cases h
  | cons d text ih =>
      rw [markAfter_cons, List.mem_append] at h
      rcases h with hd | hrest
      · by_cases hbegins : beginsWord before d = true
        · simp only [hbegins, if_true, List.mem_cons, hne, false_or, List.not_mem_nil, or_false]
            at hd
          exact hd ▸ List.mem_cons_self
        · rw [if_neg hbegins, List.mem_singleton] at hd
          exact hd ▸ List.mem_cons_self
      · exact List.mem_cons_of_mem d (ih hrest)

/-- An error of a conversion names a character of the text, unless parentheses do not
match. -/
theorem error_of_convert {text : List Char} {e : SyntaxError} (h : convert t text = .error e) :
    e = .mismatchedParentheses ∨ ∃ c ∈ text, Unknown t c ∧ e = .unknownToken c := by
  rw [convert, convertMarked_eq_emit] at h
  rcases bind_eq_error_iff.mp h with hemit | ⟨last, -, hfinish⟩
  · rcases error_of_emit hemit with hmismatched | ⟨c, hc, hunknown, he⟩
    · exact .inl hmismatched
    · have hne : c ≠ marker := by
        rintro rfl
        exact Bool.false_ne_true (hunknown.2.1.symm.trans (by simp [isOperandChar]))
      exact .inr ⟨c, mem_of_mem_markAfter hc hne, hunknown, he⟩
  · split at hfinish
    · exact .inl (Except.error.inj hfinish).symm
    · cases hfinish

variable {before c : Char} {text out : List Char} {r : Stack Char}

theorem emit_markAfter_cons_eq_ok
    (h : emit t p (markAfter before (c :: text)) = .ok (out, r)) :
    ∃ a q later, respond t p c = .ok (a, q) ∧ emit t q (markAfter c text) = .ok (later, r) ∧
      out = (if beginsWord before c then [marker] else []) ++ a ++ later := by
  rw [markAfter_cons] at h
  cases hbegins : beginsWord before c with
  | false =>
      rw [hbegins, if_neg Bool.false_ne_true] at h
      obtain ⟨a, q, later, hc, hrest, hout⟩ := emit_cons_eq_ok_iff.mp h
      exact ⟨a, q, later, hc, hrest, hout⟩
  | true =>
      rw [hbegins, if_pos rfl] at h
      obtain ⟨a₁, q₁, rest, hmarker, h, rfl⟩ := emit_cons_eq_ok_iff.mp h
      obtain ⟨rfl, rfl⟩ := parts_eq respond_marker hmarker
      obtain ⟨a, q, later, hc, hrest, rfl⟩ := emit_cons_eq_ok_iff.mp h
      exact ⟨a, q, later, hc, hrest, by simp⟩

theorem beginsWord_eq_false (hc : isWord c = false) : beginsWord before c = false := by
  rw [beginsWord, hc, Bool.false_and]

/-- Whatever is no word character begins none, so it is not marked. -/
theorem emit_markAfter_cons_of_not_word (hc : isWord c = false)
    {a : List Char} {q : Stack Char} (hrespond : respond t p c = .ok (a, q))
    (h : emit t p (markAfter before (c :: text)) = .ok (out, r)) :
    ∃ later, emit t q (markAfter c text) = .ok (later, r) ∧ out = a ++ later := by
  obtain ⟨a', q', later, hc', hrest, rfl⟩ := emit_markAfter_cons_eq_ok h
  obtain ⟨rfl, rfl⟩ := parts_eq hrespond hc'
  refine ⟨later, hrest, ?_⟩
  rw [beginsWord_eq_false hc, if_neg Bool.false_ne_true, List.nil_append]

end Infix

theorem OperatorTable.Plain.insert {t : OperatorTable} (plain : t.Plain) {c : Char}
    (f : Fixity) (hc : isWord c = false ∧ isBlank c = false ∧ isParenthesis c = false) :
    (t.insert c f).Plain := by
  intro d g hd
  by_cases h : d = c
  · exact h ▸ hc
  · rw [t.insert_of_ne f h] at hd
    exact plain d g hd

theorem OperatorTable.plain_standard : OperatorTable.standard.Plain := by
  intro c f h
  obtain ⟨op, hop, -⟩ := Option.map_eq_some_iff.mp h
  obtain rfl := Operation.ofSymbol?_eq_some_iff.mp hop
  exact ⟨isWord_symbol op, isBlank_symbol op, isParenthesis_symbol op⟩

/-- The calculator's operators and a power, which binds more tightly and groups to the
right. -/
def OperatorTable.withPower : OperatorTable :=
  .insert .standard '^' ⟨3, .right⟩

theorem OperatorTable.plain_withPower : OperatorTable.withPower.Plain :=
  OperatorTable.plain_standard.insert _ (by decide)

end Reckoner
