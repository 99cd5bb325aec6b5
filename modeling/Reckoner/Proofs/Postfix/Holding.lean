import Reckoner.Postfix.Evaluation
import Reckoner.Proofs.Infix.Tokens
import Reckoner.Proofs.Results

/-!
# The values that a machine holds

An operand is turned into a value only when something closes it, so what a machine
stands for is not its values alone.  It holds `vs` if `vs` are its values once its open
operand is closed.  Seen through this relation, a number pushes its value and an
operator combines the two topmost, at once.
-/

namespace Reckoner
namespace Postfix

open Text Infix

def digitsValue (digits : List Char) : Binary64 :=
  .ofNat (Nat.ofDigitChars 10 digits 0)

theorem operandValue_digits {w : List Char} (hne : w ≠ [])
    (hw : ∀ c ∈ w, c.isDigit = true) : operandValue w = .ok (digitsValue w) := by
  rw [operandValue, if_neg hne, if_pos (List.all_eq_true.mpr hw), digitsValue]

theorem operandValue_eq_ok_iff {w : List Char} {v : Binary64} :
    operandValue w = .ok v ↔ w ≠ [] ∧ (∀ c ∈ w, c.isDigit = true) ∧ v = digitsValue w := by
  constructor
  · intro h
    unfold operandValue at h
    split at h
    · cases h
    · next hne =>
        split at h
        · next hall => exact ⟨hne, List.all_eq_true.mp hall, (Except.ok.inj h).symm⟩
        · cases h
  · rintro ⟨hne, hw, rfl⟩
    exact operandValue_digits hne hw

namespace Machine

/-- The values of `m`, the topmost first, are `vs` once its open operand, which is
not without text, is closed. -/
structure Holds (m : Machine) (vs : List Binary64) : Prop where
  operand_ne : m.operand? ≠ some #[]
  close_eq : m.close = .ok ⟨vs⟩

variable {m : Machine} {vs : List Binary64}

theorem holds_start : start.Holds [] :=
  ⟨by simp [start], rfl⟩

theorem holds_of_none (vs : List Binary64) : Holds ⟨⟨vs⟩, none⟩ vs :=
  ⟨by simp, rfl⟩

theorem holds_of_operandValue {w : Array Char} {v : Binary64}
    (hv : operandValue w.toList = .ok v) : Holds ⟨⟨vs⟩, some w⟩ (v :: vs) := by
  constructor
  · intro h
    obtain rfl := Option.some.inj h
    exact absurd hv (by simp [operandValue])
  · simp only [close, hv]
    rfl

theorem Holds.settle_eq (h : m.Holds vs) : m.settle = .ok ⟨vs⟩ := by
  rw [settle, if_neg h.operand_ne, h.close_eq]

/-! ## Steps -/

theorem step_blank {c : Char} (h : isBlank c = true) : m.step c = .ok m := by
  simp [step, h]

theorem step_marker (m : Machine) :
    m.step marker = m.settle.map fun values ↦ ⟨values, some #[]⟩ := by
  rw [step, isBlank_marker, if_neg Bool.false_ne_true, if_pos rfl]

theorem Holds.step_marker (h : m.Holds vs) : m.step marker = .ok ⟨⟨vs⟩, some #[]⟩ := by
  rw [Machine.step_marker, h.settle_eq, map_ok]

theorem step_digit {values : Stack Binary64} {w : Array Char} {c : Char}
    (hc : c.isDigit = true) :
    step ⟨values, some w⟩ c = .ok ⟨values, some (w.push c)⟩ := by
  simp [step, isBlank_eq_false_of_isDigit hc, ne_marker_of_isDigit hc,
    ofSymbol?_eq_none_of_isDigit hc]

theorem step_symbol (m : Machine) (op : Operation) :
    m.step op.symbol = (m.close >>= combine op).map fun values ↦ ⟨values, none⟩ := by
  simp [step, isBlank_symbol op, ne_marker_of_symbol op]

theorem Holds.step_symbol {a b : Binary64} (h : m.Holds (b :: a :: vs)) (op : Operation) :
    m.step op.symbol = .ok ⟨⟨op.apply a b :: vs⟩, none⟩ := by
  rw [Machine.step_symbol, h.close_eq]
  rfl

theorem Holds.step_symbol_eq_error (h : m.Holds vs) (hvs : vs.length < 2)
    (op : Operation) : m.step op.symbol = .error .invalidExpression := by
  rw [Machine.step_symbol, h.close_eq]
  match vs, hvs with
  | [], _ => rfl
  | [_], _ => rfl

/-! ## Numbers -/

theorem run_digits {values : Stack Binary64} {w : Array Char} {digits : List Char}
    (h : ∀ c ∈ digits, c.isDigit = true) :
    run ⟨values, some w⟩ digits = .ok ⟨values, some (w ++ digits)⟩ := by
  induction digits generalizing w with
  | nil => simp
  | cons c digits ih =>
      rw [run_cons, step_digit (h c List.mem_cons_self), ok_bind,
        ih fun d hd ↦ h d (List.mem_cons_of_mem c hd)]
      rfl

theorem Holds.run_number (h : m.Holds vs) {digits : List Char} {v : Binary64}
    (hdigits : ∀ c ∈ digits, c.isDigit = true) (hv : operandValue digits = .ok v) :
    ∃ m', m.run (marker :: digits) = .ok m' ∧ m'.Holds (v :: vs) := by
  have htoList : ((#[] : Array Char) ++ digits).toList = digits := by simp
  refine ⟨⟨⟨vs⟩, some (#[] ++ digits)⟩, ?_, holds_of_operandValue (htoList.symm ▸ hv)⟩
  rw [run_cons, h.step_marker, ok_bind, run_digits hdigits]

theorem Holds.run_marker_digit (h : m.Holds vs) {c : Char} (hc : c.isDigit = true) :
    ∃ m' v, m.run [marker, c] = .ok m' ∧ m'.Holds (v :: vs) ∧ m'.operand?.isSome = true := by
  have hv : operandValue (#[c] : Array Char).toList = .ok (digitsValue [c]) :=
    operandValue_digits (by simp) (by simpa using hc)
  refine ⟨⟨⟨vs⟩, some #[c]⟩, digitsValue [c], ?_, holds_of_operandValue hv, rfl⟩
  rw [run_cons, h.step_marker, ok_bind, run_cons, step_digit hc, ok_bind]
  rfl

/-- A further digit changes the topmost value alone. -/
theorem Holds.run_digit (h : m.Holds vs) (hopen : m.operand?.isSome = true) {c : Char}
    (hc : c.isDigit = true) :
    ∃ m' vs', m.run [c] = .ok m' ∧ m'.Holds vs' ∧ vs'.length = vs.length ∧
      m'.operand?.isSome = true := by
  obtain ⟨values, operand?⟩ := m
  obtain ⟨w, rfl⟩ := Option.isSome_iff_exists.mp hopen
  obtain ⟨v, hv, hvs⟩ := map_eq_ok_iff.mp h.close_eq
  obtain ⟨hne, hw, -⟩ := operandValue_eq_ok_iff.mp hv
  have hpush : operandValue (w.push c).toList = .ok (digitsValue (w.push c).toList) := by
    apply operandValue_digits
    · simp
    · intro d hd
      rw [Array.toList_push, List.mem_append, List.mem_singleton] at hd
      rcases hd with hd | rfl
      · exact hw d hd
      · exact hc
  refine ⟨⟨values, some (w.push c)⟩, _, ?_, holds_of_operandValue hpush, ?_, rfl⟩
  · rw [run_cons, step_digit hc, ok_bind]
    rfl
  · rw [← (Stack.mk.inj hvs), List.length_cons]
    rfl

theorem run_append_of_ok {m₁ m₂ : Machine} {x y : List Char} (hx : m.run x = .ok m₁)
    (hy : m₁.run y = .ok m₂) : m.run (x ++ y) = .ok m₂ := by
  rw [run_append, hx, ok_bind, hy]

/-! ## Streams -/

theorem run_filter_visible (m : Machine) (stream : List Char) :
    m.run (stream.filter fun c ↦ !isBlank c) = m.run stream := by
  induction stream generalizing m with
  | nil => rfl
  | cons c stream ih =>
      by_cases hblank : isBlank c = true
      · rw [List.filter_cons_of_neg (by simp [hblank]), run_cons, step_blank hblank, ok_bind, ih]
      · rw [List.filter_cons_of_pos (by simpa using hblank), run_cons, run_cons]
        simp only [ih]

theorem filter_visible_spaced (chars : List Char) :
    (spaced chars).filter (fun c ↦ !isBlank c) = chars.filter fun c ↦ !isBlank c := by
  have hspace : (!isBlank ' ') ≠ true := by decide
  induction chars with
  | nil => rfl
  | cons c chars ih =>
      cases chars with
      | nil => rfl
      | cons d chars =>
          have hstep : spaced (c :: d :: chars) = [c] ++ ' ' :: spaced (d :: chars) := rfl
          rw [hstep, List.filter_append, List.filter_cons_of_neg (p := fun e ↦ !isBlank e) hspace,
            ih, ← List.filter_append]
          rfl

theorem run_spaced (m : Machine) (chars : List Char) : m.run (spaced chars) = m.run chars := by
  rw [← run_filter_visible, filter_visible_spaced, run_filter_visible]

end Machine

theorem evaluate_of_run {chars : List Char} {m : Machine} {vs : List Binary64}
    (hrun : Machine.start.run chars = .ok m) (h : m.Holds vs) :
    evaluate (String.ofList (spaced chars)) =
      answer (String.ofList (spaced chars)) ⟨vs⟩ := by
  rw [evaluate, String.toList_ofList, Machine.run_spaced, hrun, ok_bind, h.settle_eq, ok_bind]

theorem evaluate_of_run_error {chars : List Char} {e : EvaluationError}
    (hrun : Machine.start.run chars = .error e) :
    evaluate (String.ofList (spaced chars)) = .error e := by
  rw [evaluate, String.toList_ofList, Machine.run_spaced, hrun, error_bind]

theorem answer_of_two_le (stream : String) {vs : List Binary64} (h : 2 ≤ vs.length) :
    answer stream ⟨vs⟩ = .error (.remainingOperands stream vs.reverse) := by
  match vs, h with
  | _ :: _ :: _, _ => rfl

theorem answer_eq_error {stream : String} {values : Stack Binary64} {e : EvaluationError}
    (h : answer stream values = .error e) :
    2 ≤ values.size ∧ e = .remainingOperands stream values.toList := by
  match values with
  | ⟨[]⟩ => cases h
  | ⟨[_]⟩ => cases h
  | ⟨_ :: _ :: _⟩ => exact ⟨Nat.le_add_left 2 _, (Except.error.inj h).symm⟩

end Postfix
end Reckoner
