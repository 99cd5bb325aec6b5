import Reckoner.Proofs.Outcome.Faults

/-!
# Evaluation in two phases

The evaluation of a stream decides character by character, and an operand becomes a
value only when something closes it.  It can be split in two: the visible characters are
first cut into operands and operators, whatever they are worth, and these are then worked
off from left to right.  Both ways have one result on every stream, and fail first on
the same part, so an operand may be read as if it had its value at once.
-/

namespace Reckoner
namespace Postfix

open Text Infix

/-- What a stream is made of, an operand by its text. -/
inductive Part where
  | operand (text : List Char)
  | operation (op : Operation)

/-- Whether an operand goes on with `c`. -/
def goesOn (c : Char) : Bool :=
  c != marker && !isOperator c

/-- An operand and what comes after it.  It is dropped if it has no text, unless an
operator needs it. -/
def operandBefore (text : List Char) (next? : Option Char) : List Part :=
  if text = [] ∧ ¬next?.any isOperator then [] else [.operand text]

/-- The first phase, for a stream without blanks. -/
def parts : List Char → List Part
  | [] => []
  | c :: rest =>
    if c = marker then
      operandBefore (rest.takeWhile goesOn) (rest.dropWhile goesOn).head? ++
        parts (rest.dropWhile goesOn)
    else
      match Operation.ofSymbol? c with
      | some op => .operation op :: parts rest
      | none => if c.isDigit then .operand [c] :: parts rest else parts rest
termination_by stream => stream.length
decreasing_by
  · exact Nat.lt_succ_of_le (List.dropWhile_sublist _).length_le
  all_goals exact Nat.lt_succ_self _

/-- What a part does to the values so far, the last one first. -/
def Part.act (vs : List Binary64) : Part → Except EvaluationError (List Binary64)
  | operand text => (operandValue text).map (· :: vs)
  | operation op =>
    match vs with
    | b :: a :: rest => .ok (op.apply a b :: rest)
    | _ => .error .invalidExpression

/-- The second phase. -/
def calculate (vs : List Binary64) (parts : List Part) :
    Except EvaluationError (List Binary64) :=
  parts.foldlM Part.act vs

/-- That a part cannot be worked off, and what is said then. -/
inductive Part.Fails (vs : List Binary64) : Part → String → Prop
  | noText : Fails vs (operand []) "Invalid Expression"
  | notDigits {text : List Char} (hne : text ≠ []) (h : text.all Char.isDigit = false) :
      Fails vs (operand text) ("Invalid operand: " ++ quote (String.ofList text))
  | missing {op : Operation} (h : vs.length < 2) : Fails vs (operation op) "Invalid Expression"

def visible (stream : String) : List Char :=
  stream.toList.filter fun c ↦ !isBlank c

variable {m : Machine} {vs : List Binary64} {x : List Char} {c : Char} {part : Part}

/-! ## The parts of a stream -/

/-- The parts of a stream that begins in an operand whose text is `w` so far. -/
def openParts (w x : List Char) : List Part :=
  operandBefore (w ++ x.takeWhile goesOn) (x.dropWhile goesOn).head? ++
    parts (x.dropWhile goesOn)

theorem goesOn_marker : goesOn marker = false := rfl

theorem goesOn_symbol (op : Operation) : goesOn op.symbol = false := by
  rw [goesOn, isOperator_symbol, Bool.not_true, Bool.and_false]

theorem operator_or_goesOn (c : Char) :
    c = marker ∨ (∃ op : Operation, c = op.symbol) ∨ goesOn c = true := by
  by_cases hmarker : c = marker
  · exact .inl hmarker
  · cases hop : isOperator c with
    | true =>
        obtain ⟨op, rfl⟩ := isOperator_eq_true_iff.mp hop
        exact .inr (.inl ⟨op, rfl⟩)
    | false => exact .inr (.inr (by simp [goesOn, hmarker, hop]))

theorem of_goesOn (h : goesOn c = true) : c ≠ marker ∧ Operation.ofSymbol? c = none := by
  simpa [goesOn, isOperator] using h

theorem parts_nil : parts [] = [] := by
  rw [parts]

theorem parts_marker (x : List Char) : parts (marker :: x) = openParts [] x := by
  rw [parts, if_pos rfl, openParts, List.nil_append]

theorem parts_symbol (op : Operation) (x : List Char) :
    parts (op.symbol :: x) = .operation op :: parts x := by
  rw [parts, if_neg (ne_marker_of_symbol op), Operation.ofSymbol?_symbol]

theorem parts_goesOn (h : goesOn c = true) (x : List Char) :
    parts (c :: x) = (if c.isDigit then [.operand [c]] else []) ++ parts x := by
  obtain ⟨hmarker, hop⟩ := of_goesOn h
  rw [parts, if_neg hmarker, hop]
  cases c.isDigit <;> rfl

theorem openParts_nil (w : List Char) : openParts w [] = operandBefore w none := by
  rw [openParts, List.takeWhile_nil, List.dropWhile_nil, parts_nil, List.append_nil,
    List.append_nil, List.head?_nil]

theorem openParts_of_not_goesOn (h : goesOn c = false) (w x : List Char) :
    openParts w (c :: x) = operandBefore w (some c) ++ parts (c :: x) := by
  have hstop : ¬goesOn c = true := Bool.not_eq_true _ ▸ h
  rw [openParts, List.takeWhile_cons_of_neg hstop, List.dropWhile_cons_of_neg hstop,
    List.append_nil, List.head?_cons]

theorem openParts_goesOn (h : goesOn c = true) (w x : List Char) :
    openParts w (c :: x) = openParts (w ++ [c]) x := by
  rw [openParts, openParts, List.takeWhile_cons_of_pos h, List.dropWhile_cons_of_pos h,
    List.append_assoc, List.singleton_append]

theorem operandBefore_symbol (w : List Char) (op : Operation) :
    operandBefore w (some op.symbol) = [.operand w] := by
  rw [operandBefore, if_neg (fun h ↦ h.2 (isOperator_symbol op))]

/-! ## Working off the parts -/

theorem calculate_cons (vs : List Binary64) (part : Part) (rest : List Part) :
    calculate vs (part :: rest) = part.act vs >>= fun ws ↦ calculate ws rest :=
  List.foldlM_cons

theorem calculate_singleton (vs : List Binary64) (part : Part) :
    calculate vs [part] = part.act vs := by
  rw [calculate_cons]
  cases part.act vs <;> rfl

theorem calculate_append (vs : List Binary64) (before after : List Part) :
    calculate vs (before ++ after) = calculate vs before >>= fun ws ↦ calculate ws after :=
  List.foldlM_append

theorem operandValue_eq_error_iff {text : List Char} {e : EvaluationError} :
    operandValue text = .error e ↔
      text = [] ∧ e = .invalidExpression ∨
        text ≠ [] ∧ text.all Char.isDigit = false ∧ e = .invalidOperand (String.ofList text) := by
  by_cases hempty : text = []
  · simp [operandValue, hempty, eq_comm]
  · cases hall : text.all Char.isDigit <;> simp [operandValue, hempty, hall, eq_comm]

theorem Part.act_operation_eq_error_iff {op : Operation} {e : EvaluationError} :
    (operation op).act vs = .error e ↔ vs.length < 2 ∧ e = .invalidExpression := by
  rcases vs with _ | ⟨b, _ | ⟨a, rest⟩⟩ <;> simp [act, eq_comm]

theorem Part.fails_iff {message : String} :
    part.Fails vs message ↔ ∃ e, part.act vs = .error e ∧ e.message = message := by
  constructor
  · rintro (_ | ⟨hne, hall⟩ | hlength)
    · exact ⟨.invalidExpression, rfl, rfl⟩
    · exact ⟨_, map_eq_error_iff.mpr
        (operandValue_eq_error_iff.mpr (.inr ⟨hne, hall, rfl⟩)), rfl⟩
    · exact ⟨_, act_operation_eq_error_iff.mpr ⟨hlength, rfl⟩, rfl⟩
  · rintro ⟨e, hact, rfl⟩
    cases part with
    | operand text =>
        rcases operandValue_eq_error_iff.mp (map_eq_error_iff.mp hact) with
          ⟨rfl, rfl⟩ | ⟨hne, hall, rfl⟩
        · exact .noText
        · exact .notDigits hne hall
    | operation op =>
        obtain ⟨hlength, rfl⟩ := act_operation_eq_error_iff.mp hact
        exact .missing hlength

/-- The first part that fails decides the result. -/
theorem calculate_eq_error {ws : List Binary64} {e : EvaluationError} {before after : List Part}
    (hbefore : calculate vs before = .ok ws) (hpart : part.act ws = .error e) :
    calculate vs (before ++ part :: after) = .error e := by
  rw [calculate_append, hbefore, ok_bind, calculate_cons, hpart, error_bind]

namespace Machine

/-! ## The machine works off the parts -/

theorem close_open (vs : List Binary64) (w : Array Char) :
    close ⟨⟨vs⟩, some w⟩ = ((Part.operand w.toList).act vs).map Stack.mk := by
  change (operandValue w.toList).map (Stack.push ⟨vs⟩) =
    ((operandValue w.toList).map (· :: vs)).map Stack.mk
  cases operandValue w.toList <;> rfl

theorem combine_eq (op : Operation) (vs : List Binary64) :
    combine op ⟨vs⟩ = ((Part.operation op).act vs).map Stack.mk := by
  match vs with
  | [] => rfl
  | [_] => rfl
  | _ :: _ :: _ => rfl

theorem settle_open (vs : List Binary64) (w : Array Char) (next? : Option Char)
    (h : next?.any isOperator = false) :
    settle ⟨⟨vs⟩, some w⟩ = (calculate vs (operandBefore w.toList next?)).map Stack.mk := by
  by_cases hempty : w.toList = []
  · obtain rfl : w = #[] := Array.toList_eq_nil_iff.mp hempty
    rw [operandBefore, if_pos ⟨rfl, by rw [h]; exact Bool.false_ne_true⟩]
    rfl
  · have hne : (some w : Option (Array Char)) ≠ some #[] := fun h ↦
      hempty (Option.some.inj h ▸ rfl)
    rw [operandBefore, if_neg fun h ↦ hempty h.1, settle, if_neg hne, close_open,
      calculate_singleton]

/-! Each step works off some parts, and leaves an operand open or none. -/

theorem step_marker_none (vs : List Binary64) :
    step ⟨⟨vs⟩, none⟩ marker = (calculate vs []).map fun ws ↦ ⟨⟨ws⟩, some #[]⟩ :=
  step_marker _

theorem step_marker_some (vs : List Binary64) (w : Array Char) :
    step ⟨⟨vs⟩, some w⟩ marker =
      (calculate vs (operandBefore w.toList (some marker))).map fun ws ↦ ⟨⟨ws⟩, some #[]⟩ := by
  rw [step_marker, settle_open vs w (some marker) rfl]
  cases calculate vs (operandBefore w.toList (some marker)) <;> rfl

theorem step_symbol_none (vs : List Binary64) (op : Operation) :
    step ⟨⟨vs⟩, none⟩ op.symbol =
      (calculate vs [.operation op]).map fun ws ↦ ⟨⟨ws⟩, none⟩ := by
  rw [step_symbol, calculate_singleton]
  change (combine op ⟨vs⟩).map _ = _
  rw [combine_eq]
  cases (Part.operation op).act vs <;> rfl

theorem step_symbol_some (vs : List Binary64) (w : Array Char) (op : Operation) :
    step ⟨⟨vs⟩, some w⟩ op.symbol =
      (calculate vs [.operand w.toList, .operation op]).map fun ws ↦ ⟨⟨ws⟩, none⟩ := by
  rw [step_symbol, close_open, calculate_cons]
  cases (Part.operand w.toList).act vs with
  | error e => rfl
  | ok ws => exact (step_symbol _ op).symm.trans (step_symbol_none ws op)

theorem step_goesOn_none (vs : List Binary64) (hblank : isBlank c = false)
    (hc : goesOn c = true) :
    step ⟨⟨vs⟩, none⟩ c =
      (calculate vs (if c.isDigit then [.operand [c]] else [])).map fun ws ↦ ⟨⟨ws⟩, none⟩ := by
  obtain ⟨hmarker, hop⟩ := of_goesOn hc
  have hstep : step ⟨⟨vs⟩, none⟩ c =
      if c.isDigit then (operandValue [c]).map fun value ↦ ⟨⟨value :: vs⟩, none⟩
      else .ok ⟨⟨vs⟩, none⟩ := by
    simp [step, hblank, hmarker, hop, Stack.push]
  rw [hstep]
  cases c.isDigit with
  | false => rfl
  | true =>
      rw [if_pos rfl, if_pos rfl, calculate_singleton, Part.act]
      cases operandValue [c] <;> rfl

theorem step_goesOn_some (vs : List Binary64) (w : Array Char) (hblank : isBlank c = false)
    (hc : goesOn c = true) :
    step ⟨⟨vs⟩, some w⟩ c = (calculate vs []).map fun ws ↦ ⟨⟨ws⟩, some (w.push c)⟩ := by
  obtain ⟨hmarker, hop⟩ := of_goesOn hc
  have hstep : step ⟨⟨vs⟩, some w⟩ c = .ok ⟨⟨vs⟩, some (w.push c)⟩ := by
    simp [step, hblank, hmarker, hop]
  exact hstep

theorem run_cons_settle {now later : List Part} {next : List Binary64 → Machine}
    (hstep : m.step c = (calculate vs now).map next)
    (hrest : ∀ ws, ((next ws).run x >>= settle) = (calculate ws later).map Stack.mk) :
    (m.run (c :: x) >>= settle) = (calculate vs (now ++ later)).map Stack.mk := by
  rw [run_cons, hstep, calculate_append]
  cases calculate vs now with
  | error e => rfl
  | ok ws => exact hrest ws

/-- On visible characters a machine without an open operand works off the parts of the
stream, and one with an open operand works off that operand first. -/
theorem run_settle_eq_calculate (x : List Char) (hx : ∀ c ∈ x, isBlank c = false) :
    (∀ vs, (run ⟨⟨vs⟩, none⟩ x >>= settle) = (calculate vs (parts x)).map Stack.mk) ∧
      ∀ vs (w : Array Char), (run ⟨⟨vs⟩, some w⟩ x >>= settle) =
        (calculate vs (openParts w.toList x)).map Stack.mk := by
  -- the modes are handled together, since each step may leave the other one
  induction x with
  | nil =>
      refine ⟨fun vs ↦ ?_, fun vs w ↦ ?_⟩
      · rw [parts_nil]
        rfl
      · rw [openParts_nil]
        exact settle_open vs w none rfl
  | cons c x ih =>
      obtain ⟨hblank, hx⟩ := List.forall_mem_cons.mp hx
      obtain ⟨hnone, hsome⟩ := ih hx
      rcases operator_or_goesOn c with rfl | ⟨op, rfl⟩ | hc
      · refine ⟨fun vs ↦ ?_, fun vs w ↦ ?_⟩
        · have hrun := run_cons_settle (step_marker_none vs) fun ws ↦ hsome ws #[]
          rw [parts_marker]
          exact hrun
        · have hrun := run_cons_settle (step_marker_some vs w) fun ws ↦ hsome ws #[]
          rw [openParts_of_not_goesOn goesOn_marker, parts_marker]
          exact hrun
      · refine ⟨fun vs ↦ ?_, fun vs w ↦ ?_⟩
        · have hrun := run_cons_settle (step_symbol_none vs op) hnone
          rw [parts_symbol]
          exact hrun
        · have hrun := run_cons_settle (step_symbol_some vs w op) hnone
          rw [openParts_of_not_goesOn (goesOn_symbol op), operandBefore_symbol, parts_symbol]
          exact hrun
      · refine ⟨fun vs ↦ ?_, fun vs w ↦ ?_⟩
        · rw [parts_goesOn hc]
          exact run_cons_settle (step_goesOn_none vs hblank hc) hnone
        · have hrun := run_cons_settle (step_goesOn_some vs w hblank hc) fun ws ↦
            hsome ws (w.push c)
          rw [openParts_goesOn hc, ← Array.toList_push]
          exact hrun

end Machine

theorem evaluate_eq_calculate (stream : String) :
    evaluate stream =
      ((calculate [] (parts (visible stream))).map Stack.mk >>= answer stream) := by
  have hvisible : ∀ c ∈ visible stream, isBlank c = false := fun c hc ↦ by
    simpa using List.of_mem_filter hc
  have hrun := (Machine.run_settle_eq_calculate (visible stream) hvisible).1 []
  rw [visible, Machine.run_filter_visible] at hrun
  rw [visible, ← hrun, bind_assoc]
  rfl

/-- The evaluation of any stream has the result of its two phases, raises nothing else,
and fails on the first part that fails.  Blanks count for nothing but the text of the
stream in an error. -/
theorem evaluate_of_parts (stream : String) :
    Raising.evaluate stream = (evaluate stream).mapError .unevaluable ∧
      (evaluate stream = match calculate [] (parts (visible stream)) with
        | .error e => .error e
        | .ok [] => .ok .nan
        | .ok [value] => .ok value
        | .ok vs => .error (.remainingOperands stream vs.reverse)) ∧
      (∀ before part after vs message, parts (visible stream) = before ++ part :: after →
        calculate [] before = .ok vs → part.Fails vs message →
          (evaluate stream).mapError EvaluationError.message = .error message) ∧
      ∀ other, visible other = visible stream →
        evaluate other = evaluate stream ∨
          ∃ vs, evaluate stream = .error (.remainingOperands stream vs) ∧
            evaluate other = .error (.remainingOperands other vs) := by
  refine ⟨Raising.evaluate_eq stream, ?_, ?_, ?_⟩
  · rw [evaluate_eq_calculate]
    match calculate [] (parts (visible stream)) with
    | .error e => rfl
    | .ok [] => rfl
    | .ok [_] => rfl
    | .ok (_ :: _ :: _) => rfl
  · intro before part after vs message hparts hbefore hfails
    obtain ⟨e, hact, rfl⟩ := Part.fails_iff.mp hfails
    rw [evaluate_eq_calculate, hparts, calculate_eq_error hbefore hact]
    rfl
  · intro other hother
    rw [evaluate_eq_calculate, evaluate_eq_calculate, hother]
    match calculate [] (parts (visible stream)) with
    | .error e => exact .inl rfl
    | .ok [] => exact .inl rfl
    | .ok [_] => exact .inl rfl
    | .ok (b :: a :: vs) => exact .inr ⟨(b :: a :: vs).reverse, rfl, rfl⟩

/-- Of a lacking operand and one that is no number, the one that comes first is reported,
with the blanks anywhere. -/
theorem evaluate_of_parts_letter :
    (evaluate "_1 _ 2a+*").mapError EvaluationError.message = .error "Invalid operand: '2a'" ∧
      (evaluate "_1*_ 2a").mapError EvaluationError.message = .error "Invalid Expression" ∧
        (evaluate "_1 _2 a +*" = evaluate "_1 _ 2a+*" ∨
          ∃ vs, evaluate "_1 _ 2a+*" = .error (.remainingOperands "_1 _ 2a+*" vs) ∧
            evaluate "_1 _2 a +*" = .error (.remainingOperands "_1 _2 a +*" vs)) := by
  have hone : calculate [] [.operand ['1']] = .ok [.ofNat (Nat.ofDigitChars 10 ['1'] 0)] := rfl
  have hletter : parts (visible "_1 _ 2a+*") =
      [.operand ['1']] ++ .operand ['2', 'a'] :: [.operation .add, .operation .multiply] := by
    have hvisible : visible "_1 _ 2a+*" = ['_', '1', '_', '2', 'a', '+', '*'] := by decide
    rw [hvisible]
    simp [parts, goesOn, operandBefore, isOperator, marker, Operation.ofSymbol?]
  have hlacking : parts (visible "_1*_ 2a") =
      [.operand ['1']] ++ .operation .multiply :: [.operand ['2', 'a']] := by
    have hvisible : visible "_1*_ 2a" = ['_', '1', '*', '_', '2', 'a'] := by decide
    rw [hvisible]
    simp [parts, goesOn, operandBefore, isOperator, marker, Operation.ofSymbol?]
  obtain ⟨-, -, hfirst, hblanks⟩ := evaluate_of_parts "_1 _ 2a+*"
  obtain ⟨-, -, hfirst', -⟩ := evaluate_of_parts "_1*_ 2a"
  exact ⟨hfirst _ _ _ _ _ hletter hone (.notDigits (by decide) (by decide)),
    hfirst' _ _ _ _ _ hlacking hone (.missing (by decide)), hblanks "_1 _2 a +*" (by decide)⟩

end Postfix
end Reckoner
