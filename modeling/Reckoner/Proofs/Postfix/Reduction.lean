import Reckoner.Proofs.Infix.Grammar

/-!
# Streams and the stack machine

A stream that a conversion writes is a list of items, numbers and operators, spelled one
character at a time.  `reduce` is the stack machine on the items themselves: a number
is pushed when it is met, an operator takes two values and pushes one.  Evaluation
closes its operands late, but it answers for every list of items, ill-formed ones
included, as the stack machine does.
-/

namespace Reckoner
namespace Postfix

open Infix

inductive Item where
  | number (n : Numeral)
  | operation (op : Operation)

namespace Item

def chars : Item → List Char
  | number n => marker :: n.digits
  | operation op => [op.symbol]

def isNumber : Item → Bool
  | number _ => true
  | operation _ => false

/-- The stack after an item, its top first, or nothing where an operand is lacking. -/
def act : Item → List Binary64 → Option (List Binary64)
  | number n, vs => some (n.value :: vs)
  | operation op, b :: a :: vs => some (op.apply a b :: vs)
  | operation _, _ => none

end Item

/-- The stream of the items, as a conversion writes it. -/
def encode (items : List Item) : String :=
  String.ofList (spaced (items.flatMap Item.chars))

/-- The stack after the items, starting from `vs`. -/
def reduce (vs : List Binary64) (items : List Item) : Option (List Binary64) :=
  items.foldlM (fun stack item ↦ item.act stack) vs

def numberCount (items : List Item) : Nat :=
  items.countP Item.isNumber

def operationCount (items : List Item) : Nat :=
  items.countP fun item ↦ !item.isNumber

/-- Up to some operator there are no more numbers than operators, `held` values from
before the items counted with the numbers. -/
def Starved (held : Nat) (items : List Item) : Prop :=
  ∃ front op, front ++ [.operation op] <+: items ∧
    held + numberCount (front ++ [.operation op]) ≤
      operationCount (front ++ [.operation op])

variable {m : Machine} {vs ws : List Binary64} {item : Item} {items rest : List Item}
  {held : Nat}

/-! ## Counts -/

@[simp] theorem numberCount_number_cons (n : Numeral) (items : List Item) :
    numberCount (.number n :: items) = numberCount items + 1 :=
  List.countP_cons_of_pos rfl

@[simp] theorem numberCount_operation_cons (op : Operation) (items : List Item) :
    numberCount (.operation op :: items) = numberCount items := by
  simp [numberCount, Item.isNumber]

@[simp] theorem operationCount_number_cons (n : Numeral) (items : List Item) :
    operationCount (.number n :: items) = operationCount items := by
  simp [operationCount, Item.isNumber]

@[simp] theorem operationCount_operation_cons (op : Operation) (items : List Item) :
    operationCount (.operation op :: items) = operationCount items + 1 :=
  List.countP_cons_of_pos rfl

@[simp] theorem numberCount_nil : numberCount [] = 0 := rfl

@[simp] theorem operationCount_nil : operationCount [] = 0 := rfl

theorem not_starved_nil : ¬Starved held [] := by
  rintro ⟨front, op, hprefix, -⟩
  simpa using List.prefix_nil.mp hprefix

theorem starved_number_cons (n : Numeral) :
    Starved held (.number n :: items) ↔ Starved (held + 1) items := by
  constructor
  · rintro ⟨front, op, hprefix, hcount⟩
    cases front with
    | nil => simp at hprefix
    | cons first front =>
        obtain ⟨rfl, hrest⟩ := List.cons_prefix_cons.mp hprefix
        rw [List.cons_append, numberCount_number_cons, operationCount_number_cons] at hcount
        exact ⟨front, op, hrest, by omega⟩
  · rintro ⟨front, op, hprefix, hcount⟩
    refine ⟨.number n :: front, op, List.cons_prefix_cons.mpr ⟨rfl, hprefix⟩, ?_⟩
    rw [List.cons_append, numberCount_number_cons, operationCount_number_cons]
    omega

theorem starved_operation_cons (op : Operation) :
    Starved held (.operation op :: items) ↔ held < 2 ∨ Starved (held - 1) items := by
  constructor
  · rintro ⟨front, last, hprefix, hcount⟩
    by_cases htwo : held < 2
    · exact .inl htwo
    · right
      cases front with
      | nil =>
          rw [List.nil_append, numberCount_operation_cons, operationCount_operation_cons,
            numberCount_nil, operationCount_nil] at hcount
          omega
      | cons first front =>
          obtain ⟨rfl, hrest⟩ := List.cons_prefix_cons.mp hprefix
          rw [List.cons_append, numberCount_operation_cons, operationCount_operation_cons]
            at hcount
          exact ⟨front, last, hrest, by omega⟩
  · rintro (htwo | ⟨front, last, hprefix, hcount⟩)
    · refine ⟨[], op, List.cons_prefix_cons.mpr ⟨rfl, List.nil_prefix⟩, ?_⟩
      rw [List.nil_append, numberCount_operation_cons, operationCount_operation_cons]
      exact Nat.le_of_lt_succ htwo
    · refine ⟨.operation op :: front, last, List.cons_prefix_cons.mpr ⟨rfl, hprefix⟩, ?_⟩
      rw [List.cons_append, numberCount_operation_cons, operationCount_operation_cons]
      omega

/-! ## The stack machine -/

@[simp] theorem reduce_nil : reduce vs [] = some vs := rfl

theorem reduce_cons : reduce vs (item :: items) = (item.act vs).bind fun ws ↦ reduce ws items :=
  List.foldlM_cons

theorem reduce_append :
    reduce vs (items ++ rest) = (reduce vs items).bind fun ws ↦ reduce ws rest :=
  List.foldlM_append

theorem act_operation_eq_none_iff {op : Operation} :
    (Item.operation op).act vs = none ↔ vs.length < 2 := by
  match vs with
  | [] => simp [Item.act]
  | [_] => simp [Item.act]
  | _ :: _ :: _ => simp [Item.act]

theorem length_of_act (h : item.act vs = some ws) :
    ws.length + operationCount [item] = vs.length + numberCount [item] := by
  match item, vs with
  | .number n, vs =>
      obtain rfl := Option.some.inj h
      rfl
  | .operation op, b :: a :: vs =>
      obtain rfl := Option.some.inj h
      rfl

/-- Every number leaves one value more and every operator one less. -/
theorem length_of_reduce (h : reduce vs items = some ws) :
    ws.length + operationCount items = vs.length + numberCount items := by
  induction items generalizing vs with
  | nil =>
      obtain rfl := Option.some.inj h
      rfl
  | cons item items ih =>
      rw [reduce_cons, Option.bind_eq_some_iff] at h
      obtain ⟨us, hact, hrest⟩ := h
      have hlength := ih hrest
      have hitem := length_of_act hact
      cases item with
      | number n =>
          simp only [numberCount_number_cons, operationCount_number_cons, numberCount_nil,
            operationCount_nil] at hitem ⊢
          omega
      | operation op =>
          simp only [numberCount_operation_cons, operationCount_operation_cons,
            numberCount_nil, operationCount_nil] at hitem ⊢
          omega

theorem act_ne_nil : item.act vs ≠ some [] := by
  match item, vs with
  | .number n, vs => simp [Item.act]
  | .operation op, [] => simp [Item.act]
  | .operation op, [_] => simp [Item.act]
  | .operation op, _ :: _ :: _ => simp [Item.act]

/-- Once there is a value, there always is one. -/
theorem eq_nil_of_reduce_eq_nil (h : reduce vs items = some []) : vs = [] ∧ items = [] := by
  induction items generalizing vs with
  | nil => exact ⟨Option.some.inj h, rfl⟩
  | cons item items ih =>
      rw [reduce_cons, Option.bind_eq_some_iff] at h
      obtain ⟨us, hact, hrest⟩ := h
      obtain ⟨rfl, -⟩ := ih hrest
      exact absurd hact act_ne_nil

theorem reduce_eq_none_iff : reduce vs items = none ↔ Starved vs.length items := by
  induction items generalizing vs with
  | nil => exact iff_of_false (by simp) not_starved_nil
  | cons item items ih =>
      cases item with
      | number n => exact ih.trans (starved_number_cons n).symm
      | operation op =>
          rw [reduce_cons, starved_operation_cons]
          by_cases htwo : vs.length < 2
          · rw [act_operation_eq_none_iff.mpr htwo]
            exact iff_of_true rfl (.inl htwo)
          · match vs, htwo with
            | [_], htwo => exact absurd Nat.one_lt_two htwo
            | b :: a :: vs, htwo =>
                exact ih.trans (or_iff_right htwo).symm

theorem act_append_below (h : item.act vs = some ws) (below : List Binary64) :
    item.act (vs ++ below) = some (ws ++ below) := by
  match item, vs with
  | .number n, vs =>
      obtain rfl := Option.some.inj h
      rfl
  | .operation op, b :: a :: vs =>
      obtain rfl := Option.some.inj h
      rfl

/-- Values further down are left alone by what finds its operands without them. -/
theorem reduce_append_below (h : reduce vs items = some ws) (below : List Binary64) :
    reduce (vs ++ below) items = some (ws ++ below) := by
  induction items generalizing vs with
  | nil =>
      obtain rfl := Option.some.inj h
      rfl
  | cons item items ih =>
      rw [reduce_cons, Option.bind_eq_some_iff] at h
      obtain ⟨us, hact, hrest⟩ := h
      rw [reduce_cons, act_append_below hact]
      exact ih hrest

/-! ## Evaluation -/

namespace Machine

theorem Holds.run_item (h : m.Holds vs) (hact : item.act vs = some ws) :
    ∃ m', m.run item.chars = .ok m' ∧ m'.Holds ws := by
  match item, vs with
  | .number n, vs =>
      obtain rfl := Option.some.inj hact
      exact h.run_number n.isDigit_of_mem n.operandValue_digits
  | .operation op, b :: a :: vs =>
      obtain rfl := Option.some.inj hact
      refine ⟨_, ?_, holds_of_none _⟩
      rw [Item.chars, run_cons, h.step_symbol, ok_bind, run_nil]

theorem Holds.run_item_eq_error (h : m.Holds vs) (hact : item.act vs = none) :
    m.run item.chars = .error .invalidExpression := by
  cases item with
  | number n => cases hact
  | operation op =>
      rw [Item.chars, run_cons, h.step_symbol_eq_error (act_operation_eq_none_iff.mp hact),
        error_bind]

theorem Holds.run_items (h : m.Holds vs) (hreduce : reduce vs items = some ws) :
    ∃ m', m.run (items.flatMap Item.chars) = .ok m' ∧ m'.Holds ws := by
  induction items generalizing m vs with
  | nil =>
      obtain rfl := Option.some.inj hreduce
      exact ⟨m, rfl, h⟩
  | cons item items ih =>
      rw [reduce_cons, Option.bind_eq_some_iff] at hreduce
      obtain ⟨us, hact, hrest⟩ := hreduce
      obtain ⟨m₁, hrun, h₁⟩ := h.run_item hact
      obtain ⟨m₂, hrun', h₂⟩ := ih h₁ hrest
      exact ⟨m₂, run_append_of_ok hrun hrun', h₂⟩

theorem Holds.run_items_eq_error (h : m.Holds vs) (hreduce : reduce vs items = none) :
    m.run (items.flatMap Item.chars) = .error .invalidExpression := by
  induction items generalizing m vs with
  | nil => cases hreduce
  | cons item items ih =>
      rw [List.flatMap_cons, run_append]
      cases hact : item.act vs with
      | none => rw [h.run_item_eq_error hact, error_bind]
      | some us =>
          obtain ⟨m₁, hrun, h₁⟩ := h.run_item hact
          rw [reduce_cons, hact] at hreduce
          rw [hrun, ok_bind]
          exact ih h₁ hreduce

end Machine

theorem evaluate_encode_of_some (h : reduce [] items = some vs) :
    evaluate (encode items) = answer (encode items) ⟨vs⟩ := by
  obtain ⟨m, hrun, hholds⟩ := Machine.holds_start.run_items h
  exact evaluate_of_run hrun hholds

theorem evaluate_encode_of_none (h : reduce [] items = none) :
    evaluate (encode items) = .error .invalidExpression :=
  evaluate_of_run_error (Machine.holds_start.run_items_eq_error h)

theorem evaluate_encode_eq_error_iff :
    evaluate (encode items) = .error .invalidExpression ↔ Starved 0 items := by
  have hnone : reduce [] items = none ↔ Starved 0 items := reduce_eq_none_iff
  rw [← hnone]
  refine ⟨fun h ↦ ?_, evaluate_encode_of_none⟩
  cases hreduce : reduce [] items with
  | none => rfl
  | some vs =>
      rw [evaluate_encode_of_some hreduce] at h
      exact EvaluationError.noConfusion (answer_eq_error h).2

/-- A number that is answered is the one value left. -/
theorem reduce_of_evaluate_encode {v : Binary64} (h : evaluate (encode items) = .ok v)
    (hnumber : v.isNan = false) : reduce [] items = some [v] := by
  cases hreduce : reduce [] items with
  | none =>
      rw [evaluate_encode_of_none hreduce] at h
      exact absurd h error_ne_ok
  | some vs =>
      rw [evaluate_encode_of_some hreduce] at h
      rcases vs with _ | ⟨w, _ | ⟨w', vs⟩⟩
      · obtain rfl := Except.ok.inj h
        exact absurd hnumber (by decide)
      · obtain rfl := Except.ok.inj h
        rfl
      · rw [answer_of_two_le _ (Nat.le_add_left 2 _)] at h
        exact absurd h error_ne_ok

/-! ## Decoding -/

/-- A stream of items is answered as by the stack machine.  An operand is lacking if and
only if up to some operator there are no more numbers than operators.  Where none is
lacking, the count of the values left is that of the numbers less that of the operators,
and two or more are an error that shows them from bottom to top. -/
theorem evaluate_encode (items : List Item) :
    evaluate (encode items) =
        (match reduce [] items with
          | none => .error .invalidExpression
          | some [] => .ok .nan
          | some [v] => .ok v
          | some vs => .error (.remainingOperands (encode items) vs.reverse)) ∧
      (evaluate (encode items) = .error .invalidExpression ↔ Starved 0 items) ∧
      (¬Starved 0 items →
        items = [] ∧ evaluate (encode items) = .ok .nan ∨
        (numberCount items = operationCount items + 1 ∧
          ∃ v, reduce [] items = some [v] ∧ evaluate (encode items) = .ok v) ∨
        (operationCount items + 2 ≤ numberCount items ∧
          ∃ vs error, reduce [] items = some vs ∧
            vs.length = numberCount items - operationCount items ∧
            evaluate (encode items) = .error error ∧
            error.message = "Invalid expression (remaining operands): " ++ encode items ++
              ", stack: " ++ ", ".intercalate (vs.reverse.map Binary64.sixDigitText))) := by
  refine ⟨?_, evaluate_encode_eq_error_iff, fun henough ↦ ?_⟩
  · cases hreduce : reduce [] items with
    | none => exact evaluate_encode_of_none hreduce
    | some vs =>
        rw [evaluate_encode_of_some hreduce]
        match vs with
        | [] => rfl
        | [_] => rfl
        | _ :: _ :: _ => rfl
  · obtain ⟨vs, hreduce⟩ : ∃ vs, reduce [] items = some vs :=
      Option.ne_none_iff_exists'.mp fun hnone ↦ henough (reduce_eq_none_iff.mp hnone)
    have hlength := length_of_reduce hreduce
    have hvalue := evaluate_encode_of_some hreduce
    rw [List.length_nil, Nat.zero_add] at hlength
    match vs, hlength with
    | [], _ =>
        obtain ⟨-, rfl⟩ := eq_nil_of_reduce_eq_nil hreduce
        exact .inl ⟨rfl, hvalue⟩
    | [v], hlength =>
        rw [List.length_singleton] at hlength
        exact .inr (.inl ⟨by omega, v, hreduce, hvalue⟩)
    | v :: w :: vs, hlength =>
        have htwo : 2 ≤ (v :: w :: vs).length := Nat.le_add_left 2 _
        rw [answer_of_two_le _ htwo] at hvalue
        exact .inr (.inr ⟨by omega, _, _, hreduce, by omega, hvalue, rfl⟩)

def unfinishedSum : List Item :=
  [.number (.ofNat 10), .number (.ofNat 2), .operation .divide, .number (.ofNat 34)]

theorem evaluate_unfinishedSum :
    ¬Starved 0 unfinishedSum ∧ encode unfinishedSum = "_ 1 0 _ 2 / _ 3 4" ∧
      ∃ error, evaluate (encode unfinishedSum) = .error error ∧
        error.message =
          "Invalid expression (remaining operands): _ 1 0 _ 2 / _ 3 4, stack: 5, 34" := by
  have hstream : encode unfinishedSum = "_ 1 0 _ 2 / _ 3 4" := by decide
  have hreduce : reduce [] unfinishedSum = some [.ofNat 34, .ofNat 5] := by decide +kernel
  have henough : ¬Starved 0 unfinishedSum := by
    intro hstarved
    have hnone : reduce [] unfinishedSum = none := reduce_eq_none_iff.mpr hstarved
    cases hnone.symm.trans hreduce
  refine ⟨henough, hstream, ?_⟩
  rcases (evaluate_encode unfinishedSum).2.2 henough with ⟨hnil, -⟩ | ⟨hone, -⟩ | ⟨-, h⟩
  · cases hnil
  · exact absurd hone (by decide)
  · obtain ⟨vs, error, hvs, -, herror, hmessage⟩ := h
    obtain rfl := Option.some.inj (hvs.symm.trans hreduce)
    have hvalues : ", ".intercalate ([.ofNat 34, .ofNat 5].reverse.map Binary64.sixDigitText) =
        "5, 34" := by decide +kernel
    refine ⟨error, herror, ?_⟩
    rw [hmessage, hvalues, hstream]
    decide

end Postfix
end Reckoner
