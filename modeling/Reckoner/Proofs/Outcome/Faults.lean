import Reckoner.Outcome.Basic
import Reckoner.Proofs.Infix.Responses
import Reckoner.Proofs.Outcome.LeftToRight

/-!
# Partial operations

Four operations that a calculation uses are partial in themselves: taking from a stack,
looking at its top, looking up a token among the operators, and dividing, which has no
answer for a zero divisor.  `Raising` writes the calculation with these as they are,
each of them raising a fault where it has no answer, one loop for each loop over a
stack.  Only errors of the two stages are turned into outcomes there, so a fault would
come through.  None does: every partial operation stands behind a test that keeps it
from failing, or its failure is an error of the stage, and the calculation is the one of
`outcomeOf`.
-/

namespace Reckoner

open Text Infix Postfix

/-- What a step of a calculation may raise. -/
inductive Fault where
  | unreadable (cause : SyntaxError)
  | unevaluable (cause : EvaluationError)
  | underflow (cause : Stack.Underflow)
  | unknownOperator (cause : UnknownOperator)
  | zeroDivisor
deriving DecidableEq

namespace Stack

variable {α : Type}

def pop (s : Stack α) : Except Underflow (α × Stack α) :=
  match s.pop? with
  | some top => .ok top
  | none => .error .pop

def peek (s : Stack α) : Except Underflow α :=
  match s.peek? with
  | some top => .ok top
  | none => .error .peek

theorem size_lt_of_pop {s rest : Stack α} {a : α} (h : s.pop = .ok (a, rest)) :
    rest.size < s.size := by
  match s with
  | ⟨_ :: _⟩ =>
      obtain ⟨-, rfl⟩ := parts_eq rfl h
      exact Nat.lt_succ_self _

end Stack

namespace Binary64

def isZero : Binary64 → Bool
  | finite _ m => m.isZero
  | _ => false

def isNegative : Binary64 → Bool
  | nan => false
  | infinity negative | finite negative _ => negative

def withSign (negative : Bool) : Binary64 → Binary64
  | nan => nan
  | infinity _ => infinity negative
  | finite _ m => finite negative m

end Binary64

namespace Raising

/-! ## The loops of a conversion -/

/-- While something waits and the top yields to `c`, the top is released. -/
def release (t : OperatorTable) (c : Char) (pending : Stack Char) :
    Except Fault (List Char × Stack Char) :=
  if pending.isEmpty then .ok ([], pending)
  else
    match pending.peek with
    | .error cause => .error (.underflow cause)
    | .ok top =>
      match t.shouldPop (String.singleton c) (String.singleton top) with
      | .error cause => .error (.unknownOperator cause)
      | .ok false => .ok ([], pending)
      | .ok true =>
        match _ : pending.pop with
        | .error cause => .error (.underflow cause)
        | .ok (released, rest) =>
          (release t c rest).map fun later ↦ (released :: later.1, later.2)
termination_by pending.size
decreasing_by exact Stack.size_lt_of_pop ‹_›

/-- While something waits, the top is taken, up to an opening parenthesis. -/
def close (pending : Stack Char) : Except Fault (List Char × Stack Char) :=
  if pending.isEmpty then .error (.unreadable .mismatchedParentheses)
  else
    match _ : pending.pop with
    | .error cause => .error (.underflow cause)
    | .ok (top, rest) =>
      if top = '(' then .ok ([], rest)
      else (close rest).map fun later ↦ (top :: later.1, later.2)
termination_by pending.size
decreasing_by exact Stack.size_lt_of_pop ‹_›

/-- While something waits, the top is released, if it is no parenthesis. -/
def flush (pending : Stack Char) : Except Fault (List Char) :=
  if pending.isEmpty then .ok []
  else
    match _ : pending.pop with
    | .error cause => .error (.underflow cause)
    | .ok (top, rest) =>
      if isParenthesis top then .error (.unreadable .mismatchedParentheses)
      else (flush rest).map (top :: ·)
termination_by pending.size
decreasing_by exact Stack.size_lt_of_pop ‹_›

def respond (t : OperatorTable) (pending : Stack Char) (c : Char) :
    Except Fault (List Char × Stack Char) :=
  if isBlank c then .ok ([], pending)
  else if isOperandChar c then .ok ([c], pending)
  else if t.contains c then (release t c pending).map fun now ↦ (now.1, now.2.push c)
  else if c = '(' then .ok ([], pending.push c)
  else if c = ')' then close pending
  else .error (.unreadable (.unknownToken c))

def emit (t : OperatorTable) :
    Stack Char → List Char → Except Fault (List Char × Stack Char)
  | pending, [] => .ok ([], pending)
  | pending, c :: text =>
    respond t pending c >>= fun now ↦
      (emit t now.2 text).map fun later ↦ (now.1 ++ later.1, later.2)

def toPostfix (t : OperatorTable) (text : String) : Except Fault String :=
  emit t .empty (markChars text.toList) >>= fun last ↦
    (flush last.2).map fun rest ↦ String.ofList (spaced (last.1 ++ rest))

/-! ## The steps of an evaluation -/

/-- Division as it is without a rule for zero divisors. -/
def quotient (a b : Binary64) : Except Fault Binary64 :=
  if b.isZero then .error .zeroDivisor else .ok (a.div b)

/-- A zero divisor never reaches `quotient`; infinity gets its sign from both. -/
def divide (a b : Binary64) : Except Fault Binary64 :=
  if b.isZero then
    if a.isZero || a.isNan then .ok .nan
    else .ok ((Binary64.infinity a.isNegative).mul (Binary64.one.withSign b.isNegative))
  else quotient a b

def apply : Operation → Binary64 → Binary64 → Except Fault Binary64
  | .divide, a, b => divide a b
  | op, a, b => .ok (op.apply a b)

def takeTwo (values : Stack Binary64) :
    Except Stack.Underflow (Binary64 × Binary64 × Stack Binary64) :=
  values.pop >>= fun (b, below) ↦ below.pop.map fun (a, rest) ↦ (a, b, rest)

/-- Too few values are an error of the expression; the operation is looked up after
that. -/
def combine (c : Char) (values : Stack Binary64) : Except Fault (Stack Binary64) :=
  match takeTwo values with
  | .error _ => .error (.unevaluable .invalidExpression)
  | .ok (a, b, rest) =>
    (Operation.ofToken (String.singleton c)).mapError .unknownOperator >>= fun op ↦
      (apply op a b).map rest.push

def step (m : Machine) (c : Char) : Except Fault Machine :=
  if isBlank c then .ok m
  else if c = marker then
    (m.settle.mapError .unevaluable).map fun values ↦ ⟨values, some #[]⟩
  else if isOperator c then
    m.close.mapError .unevaluable >>= fun values ↦
      (combine c values).map fun values ↦ ⟨values, none⟩
  else
    match m.operand? with
    | some text => .ok { m with operand? := some (text.push c) }
    | none =>
      if c.isDigit then
        ((operandValue [c]).mapError .unevaluable).map fun value ↦ ⟨m.values.push value, none⟩
      else .ok m

def answer (stream : String) (values : Stack Binary64) : Except Fault Binary64 :=
  if 1 < values.size then .error (.unevaluable (.remainingOperands stream values.toList))
  else if values.isEmpty then .ok .nan
  else (values.pop.mapError .underflow).map Prod.fst

def evaluate (stream : String) : Except Fault Binary64 :=
  stream.toList.foldlM step .start >>= fun last ↦
    last.settle.mapError .unevaluable >>= answer stream

/-- The errors of the two stages become outcomes, and nothing else does. -/
def outcome (expression : String) : Except Fault Outcome :=
  match toPostfix .standard expression >>= evaluate with
  | .ok value => .ok (if value.isNan then .failed "Invalid Expression" else .succeeded value)
  | .error (.unreadable cause) => .ok (.failed cause.message)
  | .error (.unevaluable cause) => .ok (.failed cause.message)
  | .error fault => .error fault

/-! ## No fault is raised -/

variable {t : OperatorTable} {c : Char}

theorem shouldPop_singleton {f : Fixity} (hc : t c = some f) (top : Char) :
    t.shouldPop (String.singleton c) (String.singleton top) = .ok (t.releases f top) := by
  have hfixity : ∀ d, t.fixity? (String.singleton d) = t d := fun d ↦ by
    simp [OperatorTable.fixity?]
  rw [OperatorTable.shouldPop, hfixity, OperatorTable.releases]
  cases t top with
  | none => rfl
  | some waiting => simp [OperatorTable.fixity, hfixity, hc]

/-- All that waits and yields to an operator is released. -/
theorem release_eq {f : Fixity} (hc : t c = some f) (items : List Char) :
    release t c ⟨items⟩ = .ok (Stack.popWhile (t.releases f) ⟨items⟩) := by
  induction items with
  | nil =>
      rw [release]
      rfl
  | cons top rest ih =>
      rw [release, if_neg (by simp [Stack.isEmpty])]
      have hpeek : Stack.peek ⟨top :: rest⟩ = .ok top := rfl
      simp only [hpeek, shouldPop_singleton hc]
      cases hyields : t.releases f top with
      | false => simp [Stack.popWhile, hyields]
      | true =>
          change (release t c ⟨rest⟩).map _ = _
          rw [ih]
          simp [Stack.popWhile, hyields]

theorem closeGroup_cons {top : Char} (htop : top ≠ '(') (rest : List Char) :
    closeGroup ⟨top :: rest⟩ =
      (closeGroup ⟨rest⟩).map fun later ↦ (top :: later.1, later.2) := by
  have hstay : (top != '(') = true := by simpa using htop
  have htake : (top :: rest).takeWhile (· != '(') = top :: rest.takeWhile (· != '(') :=
    List.takeWhile_cons_of_pos hstay
  have hdrop : (top :: rest).dropWhile (· != '(') = rest.dropWhile (· != '(') :=
    List.dropWhile_cons_of_pos hstay
  simp only [closeGroup, Stack.popWhile, Stack.pop?, htake, hdrop]
  cases rest.dropWhile (· != '(') <;> rfl

theorem close_eq (items : List Char) :
    close ⟨items⟩ = (closeGroup ⟨items⟩).mapError .unreadable := by
  induction items with
  | nil =>
      rw [close]
      rfl
  | cons top rest ih =>
      rw [close, if_neg (by simp [Stack.isEmpty])]
      change (if top = '(' then _ else (close ⟨rest⟩).map _) = _
      by_cases htop : top = '('
      · subst htop
        rfl
      · rw [if_neg htop, ih, closeGroup_cons htop]
        cases closeGroup ⟨rest⟩ <;> rfl

theorem flush_eq (items : List Char) :
    flush ⟨items⟩ =
      if items.any isParenthesis then .error (.unreadable .mismatchedParentheses)
      else .ok items := by
  induction items with
  | nil =>
      rw [flush]
      rfl
  | cons top rest ih =>
      rw [flush, if_neg (by simp [Stack.isEmpty]), List.any_cons]
      change (if isParenthesis top then _ else (flush ⟨rest⟩).map _) = _
      cases isParenthesis top with
      | true => rfl
      | false =>
          rw [if_neg Bool.false_ne_true, Bool.false_or, ih]
          split <;> rfl

theorem respond_eq (pending : Stack Char) :
    respond t pending c = (Infix.respond t pending c).mapError .unreadable := by
  unfold respond Infix.respond
  by_cases hblank : isBlank c = true
  · rw [if_pos hblank, if_pos hblank]
    rfl
  rw [if_neg hblank, if_neg hblank]
  by_cases hoperand : isOperandChar c = true
  · rw [if_pos hoperand, if_pos hoperand]
    rfl
  rw [if_neg hoperand, if_neg hoperand]
  cases hc : t c with
  | some f =>
      rw [if_pos (by rw [OperatorTable.contains, hc, Option.isSome_some]), release_eq hc]
      rfl
  | none =>
      rw [if_neg (by simp [OperatorTable.contains, hc])]
      by_cases hopening : c = '('
      · rw [if_pos hopening, if_pos hopening]
        rfl
      rw [if_neg hopening, if_neg hopening]
      by_cases hclosing : c = ')'
      · rw [if_pos hclosing, if_pos hclosing, close_eq]
      · rw [if_neg hclosing, if_neg hclosing]
        rfl

theorem emit_eq (pending : Stack Char) (text : List Char) :
    emit t pending text = (Infix.emit t pending text).mapError .unreadable := by
  induction text generalizing pending with
  | nil => rfl
  | cons c text ih =>
      rw [emit, Infix.emit, respond_eq]
      cases Infix.respond t pending c with
      | error e => rfl
      | ok now =>
          change (emit t now.2 text).map _ = _
          rw [ih, ok_bind]
          cases Infix.emit t now.2 text <;> rfl

/-- A conversion raises nothing but its own errors, under any table. -/
theorem toPostfix_eq (text : String) :
    toPostfix t text = (Infix.toPostfix t text).mapError .unreadable := by
  rw [toPostfix, Infix.toPostfix, convert, convertMarked_eq_emit, emit_eq]
  cases Infix.emit t .empty (markChars text.toList) with
  | error e => rfl
  | ok last =>
      change (flush last.2).map _ = _
      rw [flush_eq, ok_bind]
      split <;> rfl

/-! Division meets no zero divisor, and the sign of infinity is that of a quotient. -/

theorem eq_finite_of_isZero {b : Binary64} (h : b.isZero = true) :
    ∃ negative m, b = .finite negative m ∧ m.isZero = true := by
  cases b with
  | nan => cases h
  | infinity negative => cases h
  | finite negative m => exact ⟨negative, m, rfl, h⟩

theorem divide_eq (a b : Binary64) : divide a b = .ok (a.div b) := by
  unfold divide
  cases hb : b.isZero with
  | false => rw [if_neg Bool.false_ne_true, quotient, hb, if_neg Bool.false_ne_true]
  | true =>
      obtain ⟨t, n, rfl, hn⟩ := eq_finite_of_isZero hb
      have hone : Binary64.Magnitude.isZero ⟨1023 * Binary64.binade, by decide⟩ = false := by
        decide
      rw [if_pos rfl]
      cases a with
      | nan => rfl
      | infinity s =>
          simp [Binary64.isZero, Binary64.isNan, Binary64.isNegative, Binary64.one,
            Binary64.withSign, Binary64.mul, Binary64.div, hone]
      | finite s m =>
          cases hm : m.isZero <;>
            simp [Binary64.isZero, Binary64.isNan, Binary64.isNegative, Binary64.one,
              Binary64.withSign, Binary64.mul, Binary64.div, hone, hn, hm]

theorem apply_eq (op : Operation) (a b : Binary64) : apply op a b = .ok (op.apply a b) := by
  cases op with
  | divide => exact divide_eq a b
  | add => rfl
  | subtract => rfl
  | multiply => rfl

theorem ofToken_symbol (op : Operation) :
    Operation.ofToken (String.singleton op.symbol) = .ok op := by
  simp [Operation.ofToken]

theorem combine_eq (op : Operation) (values : Stack Binary64) :
    combine op.symbol values = (Machine.combine op values).mapError .unevaluable := by
  match values with
  | ⟨[]⟩ => rfl
  | ⟨[_]⟩ => rfl
  | ⟨b :: a :: rest⟩ =>
      change (Operation.ofToken (String.singleton op.symbol)).mapError _ >>= _ = _
      rw [ofToken_symbol]
      change (apply op a b).map _ = _
      rw [apply_eq]
      rfl

theorem step_eq (m : Machine) (c : Char) : step m c = (m.step c).mapError .unevaluable := by
  unfold step Machine.step
  by_cases hblank : isBlank c = true
  · rw [if_pos hblank, if_pos hblank]
    rfl
  rw [if_neg hblank, if_neg hblank]
  by_cases hmarker : c = marker
  · rw [if_pos hmarker, if_pos hmarker]
    cases m.settle <;> rfl
  rw [if_neg hmarker, if_neg hmarker]
  cases hop : Operation.ofSymbol? c with
  | some op =>
      obtain rfl := Operation.ofSymbol?_eq_some_iff.mp hop
      rw [if_pos (isOperator_symbol op)]
      cases m.close with
      | error e => rfl
      | ok values =>
          change (combine op.symbol values).map _ =
            ((Machine.combine op values).map _).mapError _
          rw [combine_eq]
          cases Machine.combine op values <;> rfl
  | none =>
      rw [if_neg (by simp [isOperator, hop])]
      cases m.operand? with
      | some text => rfl
      | none =>
          simp only
          split
          · cases operandValue [c] <;> rfl
          · rfl

theorem answer_eq (stream : String) (values : Stack Binary64) :
    answer stream values = (Postfix.answer stream values).mapError .unevaluable := by
  match values with
  | ⟨[]⟩ => rfl
  | ⟨[_]⟩ => rfl
  | ⟨_ :: _ :: rest⟩ => rw [answer, if_pos (by simp [Stack.size])]; rfl

/-- An evaluation raises nothing but its own errors, on any stream. -/
theorem evaluate_eq (stream : String) :
    evaluate stream = (Postfix.evaluate stream).mapError .unevaluable := by
  have hrun : ∀ (chars : List Char) (m : Machine),
      chars.foldlM step m = (m.run chars).mapError .unevaluable := by
    intro chars
    induction chars with
    | nil => exact fun m ↦ rfl
    | cons c chars ih =>
        intro m
        rw [List.foldlM_cons, Machine.run_cons, step_eq]
        cases m.step c with
        | error e => rfl
        | ok next => exact ih next
  rw [evaluate, Postfix.evaluate, hrun]
  cases Machine.start.run stream.toList with
  | error e => rfl
  | ok last =>
      change last.settle.mapError _ >>= answer stream = _
      rw [ok_bind]
      cases last.settle with
      | error e => rfl
      | ok values => exact answer_eq stream values

/-- No fault comes through. -/
theorem outcome_eq (expression : String) : outcome expression = .ok (outcomeOf expression) := by
  rw [outcome, toPostfix_eq]
  cases hstream : Infix.toPostfix .standard expression with
  | error e =>
      have hfailed : outcomeOf expression = .failed e.message := by
        rw [outcomeOf, valueOf_eq, hstream]
        rfl
      rw [hfailed]
      rfl
  | ok stream =>
      have hevaluate : (Except.mapError Fault.unreadable (.ok stream) >>= evaluate) =
          evaluate stream := rfl
      rw [hevaluate, evaluate_eq]
      cases hvalue : Postfix.evaluate stream with
      | error e =>
          have hfailed : outcomeOf expression = .failed e.message := by
            rw [outcomeOf, valueOf_eq, hstream]
            change Outcome.ofResult ((Postfix.evaluate stream).mapError _ >>= _) = _
            rw [hvalue]
            rfl
          rw [hfailed]
          rfl
      | ok value =>
          rw [outcomeOf, valueOf_of_evaluate hstream hvalue]
          change Except.ok (if value.isNan then _ else _) = _
          cases value.isNan <;> rfl

end Raising
end Reckoner
