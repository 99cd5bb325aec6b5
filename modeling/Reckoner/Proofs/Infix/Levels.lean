import Reckoner.Proofs.Infix.Responses

/-!
# Levels of the pending stack

The standard operators share one precedence and group to the left, so of the operators
of one group at most one waits.  What waits is then one optional operation for each
level: that of the innermost open group, and those of the levels around it.
-/

namespace Reckoner
namespace Infix

open Text

/-- The operation that a level has waiting, if it has one, as it is released. -/
def symbols (level : Option Operation) : List Char :=
  (level.map Operation.symbol).toList

/-- The pending stack of the levels, the innermost first. -/
def waiting (inner : Option Operation) (outer : List (Option Operation)) : Stack Char :=
  ⟨symbols inner ++ outer.flatMap fun level ↦ '(' :: symbols level⟩

theorem notMem_symbols {c : Char} (hc : isParenthesis c = true) (level : Option Operation) :
    c ∉ symbols level := by
  intro h
  obtain ⟨op, -, rfl⟩ := Option.map_eq_some_iff.mp (Option.mem_toList.mp h)
  exact Bool.false_ne_true ((isParenthesis_symbol op).symm.trans hc)

theorem standard_symbol (op : Operation) :
    OperatorTable.standard op.symbol = some .leftToRight := by
  simp [OperatorTable.standard]

theorem standard_eq_leftToRight {c : Char} {f : Fixity} (h : OperatorTable.standard c = some f) :
    f = .leftToRight := by
  obtain ⟨op, -, hf⟩ := Option.map_eq_some_iff.mp h
  exact hf.symm

theorem releases_symbol (op : Operation) :
    OperatorTable.standard.releases .leftToRight op.symbol = true := by
  rw [OperatorTable.releases, standard_symbol]
  rfl

variable {inner level : Option Operation} {outer : List (Option Operation)}

/-- An operator takes the place of the one that waits in its group. -/
theorem respond_symbol (op : Operation) :
    respond .standard (waiting inner outer) op.symbol =
      .ok (symbols inner, waiting (some op) outer) := by
  refine respond_operator OperatorTable.plain_standard (standard_symbol op) ?_ ?_
  · intro d hd
    obtain ⟨waitingOp, -, rfl⟩ := Option.map_eq_some_iff.mp (Option.mem_toList.mp hd)
    exact releases_symbol waitingOp
  · intro d hd
    cases outer with
    | nil => simp at hd
    | cons level outer =>
        obtain rfl : '(' = d := by simpa using hd
        decide

theorem respond_opening_standard :
    respond .standard (waiting inner outer) '(' = .ok ([], waiting none (inner :: outer)) :=
  respond_opening OperatorTable.plain_standard

theorem respond_closing_standard :
    respond .standard (waiting inner (level :: outer)) ')' =
      .ok (symbols inner, waiting level outer) := by
  rw [respond_closing OperatorTable.plain_standard]
  exact closeGroup_of_notMem (notMem_symbols rfl inner)

theorem respond_closing_standard_nil :
    respond .standard (waiting inner []) ')' = .error .mismatchedParentheses := by
  rw [respond_closing OperatorTable.plain_standard, waiting, List.flatMap_nil, List.append_nil]
  exact closeGroup_eq_error_of_notMem (notMem_symbols rfl inner)

/-- A parenthesis waits as long as a group is open. -/
theorem any_isParenthesis_waiting :
    (waiting inner outer).items.any isParenthesis = !outer.isEmpty := by
  have hsymbols : (symbols inner).any isParenthesis = false := by
    rw [List.any_eq_false]
    intro c hc hparen
    exact notMem_symbols hparen inner hc
  have hopening : isParenthesis '(' = true := rfl
  cases outer with
  | nil => simp [waiting, hsymbols]
  | cons level outer => simp [waiting, hopening]

theorem kind_of_respond_eq_ok {p : Stack Char} {c : Char} {r : List Char × Stack Char}
    (h : respond .standard p c = .ok r) (hmarker : c ≠ marker) :
    isBlank c = true ∨ c.isDigit = true ∨ (∃ op : Operation, c = op.symbol) ∨
      c = '(' ∨ c = ')' := by
  by_contra hkind
  push Not at hkind
  obtain ⟨hblank, hdigit, hop, hopening, hclosing⟩ := hkind
  have hnone : OperatorTable.standard c = none := by
    rw [OperatorTable.standard, Option.map_eq_none_iff]
    cases hc : Operation.ofSymbol? c with
    | none => rfl
    | some op => exact absurd (Operation.ofSymbol?_eq_some_iff.mp hc) (hop op)
  have herror := respond_eq_error (t := .standard) (p := p) (by simpa using hblank)
    (by simpa [isOperandChar, hmarker] using hdigit) hnone
    (by simp [isParenthesis, hopening, hclosing])
  exact error_ne_ok (herror.symm.trans h)

/-! ## Turns -/

/-- All that a character can do: what it releases, and the levels after it. -/
inductive Turn : Option Operation → List (Option Operation) → Char → List Char →
    Option Operation → List (Option Operation) → Prop
  | blank {inner : Option Operation} {outer : List (Option Operation)} {c : Char}
      (h : isBlank c = true) : Turn inner outer c [] inner outer
  | operand {inner : Option Operation} {outer : List (Option Operation)} {c : Char}
      (h : isOperandChar c = true) : Turn inner outer c [c] inner outer
  | symbol {inner : Option Operation} {outer : List (Option Operation)} (op : Operation) :
      Turn inner outer op.symbol (symbols inner) (some op) outer
  | opening {inner : Option Operation} {outer : List (Option Operation)} :
      Turn inner outer '(' [] none (inner :: outer)
  | closing {inner level : Option Operation} {outer : List (Option Operation)} :
      Turn inner (level :: outer) ')' (symbols inner) level outer

theorem exists_turn {c : Char} {a : List Char} {r : Stack Char}
    (h : respond .standard (waiting inner outer) c = .ok (a, r)) :
    ∃ inner' outer', r = waiting inner' outer' ∧ Turn inner outer c a inner' outer' := by
  by_cases hmarker : c = marker
  · subst hmarker
    obtain ⟨rfl, rfl⟩ := parts_eq respond_marker h
    exact ⟨inner, outer, rfl, .operand (by simp [isOperandChar])⟩
  · rcases kind_of_respond_eq_ok h hmarker with hblank | hdigit | ⟨op, rfl⟩ | rfl | rfl
    · obtain ⟨rfl, rfl⟩ := parts_eq (respond_blank hblank) h
      exact ⟨inner, outer, rfl, .blank hblank⟩
    · obtain ⟨rfl, rfl⟩ := parts_eq (respond_digit hdigit) h
      exact ⟨inner, outer, rfl, .operand (by simp [isOperandChar, hdigit])⟩
    · obtain ⟨rfl, rfl⟩ := parts_eq (respond_symbol op) h
      exact ⟨some op, outer, rfl, .symbol op⟩
    · obtain ⟨rfl, rfl⟩ := parts_eq respond_opening_standard h
      exact ⟨none, inner :: outer, rfl, .opening⟩
    · cases outer with
      | nil => exact absurd (respond_closing_standard_nil.symm.trans h) error_ne_ok
      | cons level outer =>
          obtain ⟨rfl, rfl⟩ := parts_eq respond_closing_standard h
          exact ⟨level, outer, rfl, .closing⟩

theorem Turn.of_not_word {inner' : Option Operation} {outer' : List (Option Operation)}
    {c : Char} {a : List Char} (h : Turn inner outer c a inner' outer')
    (hw : isWord c = false) : ∃ level, a = symbols level := by
  cases h with
  | blank hblank => exact ⟨none, rfl⟩
  | operand hoperand =>
      rw [isOperandChar_eq_false_of_isWord hw] at hoperand
      exact absurd hoperand Bool.false_ne_true
  | symbol op => exact ⟨inner, rfl⟩
  | opening => exact ⟨none, rfl⟩
  | closing => exact ⟨inner, rfl⟩

theorem Turn.of_word {inner' : Option Operation} {outer' : List (Option Operation)}
    {c : Char} {a : List Char} (h : Turn inner outer c a inner' outer')
    (hw : isWord c = true) : isOperandChar c = true ∧ a = [c] := by
  cases h with
  | blank hblank =>
      exact absurd (hw.symm.trans (isWord_eq_false_of_isBlank hblank)) Bool.noConfusion
  | operand hoperand => exact ⟨hoperand, rfl⟩
  | symbol op => exact absurd (hw.symm.trans (isWord_symbol op)) Bool.noConfusion
  | opening => cases hw
  | closing => cases hw

theorem exists_waiting_of_emit {x a : List Char} {r : Stack Char}
    (h : emit .standard (waiting inner outer) x = .ok (a, r)) :
    ∃ inner' outer', r = waiting inner' outer' := by
  induction x generalizing inner outer a with
  | nil =>
      obtain ⟨-, rfl⟩ := parts_eq emit_nil h
      exact ⟨inner, outer, rfl⟩
  | cons c x ih =>
      obtain ⟨now, q, later, hc, hrest, -⟩ := emit_cons_eq_ok_iff.mp h
      obtain ⟨inner', outer', rfl, -⟩ := exists_turn hc
      exact ih hrest

/-- At the end of a text at most one operator waits. -/
theorem exists_emit_of_convert {text chars : List Char} (h : convert .standard text = .ok chars) :
    ∃ out level, chars = out ++ symbols level ∧
      emit .standard (waiting none []) (markChars text) = .ok (out, waiting level []) := by
  obtain ⟨out, r, hemit, hparen, rfl⟩ := convertMarked_eq_ok_iff.mp h
  have hwaiting : emit .standard (waiting none []) (markChars text) = .ok (out, r) := hemit
  obtain ⟨level, levels, rfl⟩ := exists_waiting_of_emit hwaiting
  rw [any_isParenthesis_waiting] at hparen
  obtain rfl : levels = [] := by simpa using hparen
  exact ⟨out, level, by simp [waiting], hwaiting⟩

end Infix
end Reckoner
