import Reckoner.Proofs.Infix.Levels
import Mathlib.Data.List.Basic

/-!
# When operators are released

Under the standard table an operator waits until the next operator of its own group,
or else until the group is closed, or else until the text ends.  `releasePoint` is that
place.  A text can be evaluated only if enough numbers stand before every release;
`Supplied` says so for a whole text, and `SuppliedFrom` for the rest of one, given the
places at which operators will be released and the values already held.
-/

namespace Reckoner
namespace Infix

open Text

/-- How far a text goes before the group `depth` levels out of its beginning goes on
with an operator, is closed, or ends with the text. -/
def reach : Nat → List Char → Nat
  | _, [] => 0
  | 0, c :: rest =>
    if isOperator c || c == ')' then 0 else reach (if c = '(' then 1 else 0) rest + 1
  | depth + 1, c :: rest =>
    reach (if c = '(' then depth + 2 else if c = ')' then depth else depth + 1) rest + 1

/-- Where the operator at place `i` is released. -/
def releasePoint (text : List Char) (i : Nat) : Nat :=
  i + 1 + reach 0 (text.drop (i + 1))

/-- How many runs of digits begin in a text that stands after `before`. -/
def runsAfter (before : Char) (text : List Char) : Nat :=
  (text.zip (before :: text)).countP fun (c, b) ↦ c.isDigit && !b.isDigit

def digitRuns (text : List Char) : Nat :=
  runsAfter ' ' text

def operatorPlaces (text : List Char) : List Nat :=
  text.findIdxs isOperator

/-- Before every release there are more numbers than operators released up to it. -/
def Supplied (text : List Char) : Prop :=
  ∀ i ∈ operatorPlaces text,
    1 + (operatorPlaces text).countP (fun k ↦ releasePoint text k ≤ releasePoint text i) ≤
      digitRuns (text.take (releasePoint text i))

instance (text : List Char) : Decidable (Supplied text) :=
  inferInstanceAs (Decidable (∀ i ∈ operatorPlaces text, _ ≤ _))

/-! ## Steps of `reach` -/

variable {c : Char} {text : List Char}

theorem reach_cons_of_neutral (hop : isOperator c = false) (hc : isParenthesis c = false)
    (depth : Nat) : reach depth (c :: text) = reach depth text + 1 := by
  have hne : c ≠ '(' ∧ c ≠ ')' := by simpa [isParenthesis] using hc
  cases depth <;> simp [reach, hop, hne.1, hne.2]

theorem reach_cons_opening (depth : Nat) :
    reach depth ('(' :: text) = reach (depth + 1) text + 1 := by
  have hop : isOperator '(' = false := rfl
  cases depth <;> simp [reach, hop]

theorem reach_zero_cons_closing : reach 0 (')' :: text) = 0 := by
  simp [reach]

theorem reach_succ_cons_closing (depth : Nat) :
    reach (depth + 1) (')' :: text) = reach depth text + 1 := by
  simp [reach]

theorem reach_zero_cons_symbol (op : Operation) : reach 0 (op.symbol :: text) = 0 := by
  simp [reach, isOperator_symbol]

theorem reach_succ_cons_symbol (op : Operation) (depth : Nat) :
    reach (depth + 1) (op.symbol :: text) = reach (depth + 1) text + 1 := by
  have hne := ne_parentheses_of_symbol op
  simp [reach, hne.1, hne.2]

/-! ## The schedule of a text -/

/-- Where the operators that wait at `depth` and further out are released. -/
def dues (text : List Char) : Nat → List (Option Operation) → List Nat
  | _, [] => []
  | depth, level :: outer =>
    (level.map fun _ ↦ reach depth text).toList ++ dues text (depth + 1) outer

def ownPoints (text : List Char) : List Nat :=
  (operatorPlaces text).map (releasePoint text)

/-- Where all operators are released, those that wait at its levels included. -/
def schedule (levels : List (Option Operation)) (text : List Char) : List Nat :=
  dues text 0 levels ++ ownPoints text

theorem dues_cons {depth depth' : Nat} {levels : List (Option Operation)}
    (h : ∀ n, reach (depth + n) (c :: text) = reach (depth' + n) text + 1) :
    dues (c :: text) depth levels = (dues text depth' levels).map (· + 1) := by
  induction levels generalizing depth depth' with
  | nil => rfl
  | cons level outer ih =>
      have hhead : reach depth (c :: text) = reach depth' text + 1 := h 0
      have htail : dues (c :: text) (depth + 1) outer =
          (dues text (depth' + 1) outer).map (· + 1) := by
        apply ih
        intro n
        rw [Nat.add_assoc, Nat.add_assoc]
        exact h (1 + n)
      cases level <;> simp [dues, hhead, htail]

theorem releasePoint_cons_succ (i : Nat) :
    releasePoint (c :: text) (i + 1) = releasePoint text i + 1 := by
  rw [releasePoint, releasePoint, List.drop_succ_cons]
  omega

theorem operatorPlaces_cons :
    operatorPlaces (c :: text) =
      (if isOperator c then [0] else []) ++ (operatorPlaces text).map (· + 1) := by
  unfold operatorPlaces
  rw [List.findIdxs_cons, List.findIdxs_start]
  split <;> rfl

theorem ownPoints_cons :
    ownPoints (c :: text) =
      (if isOperator c then [reach 0 text + 1] else []) ++ (ownPoints text).map (· + 1) := by
  have hfirst : releasePoint (c :: text) 0 = reach 0 text + 1 := by
    rw [releasePoint, List.drop_succ_cons, List.drop_zero]
    omega
  have hrest : ((operatorPlaces text).map (· + 1)).map (releasePoint (c :: text)) =
      (ownPoints text).map (· + 1) := by
    simp [ownPoints, releasePoint_cons_succ, Function.comp_def]
  rw [ownPoints, operatorPlaces_cons, List.map_append, hrest]
  split <;> simp [hfirst]

theorem schedule_cons_of_neutral (hop : isOperator c = false) (hc : isParenthesis c = false)
    (levels : List (Option Operation)) :
    schedule levels (c :: text) = (schedule levels text).map (· + 1) := by
  have hdues : dues (c :: text) 0 levels = (dues text 0 levels).map (· + 1) :=
    dues_cons fun n ↦ reach_cons_of_neutral hop hc (0 + n)
  simp [schedule, hdues, ownPoints_cons, hop]

theorem schedule_cons_opening (levels : List (Option Operation)) :
    schedule levels ('(' :: text) = (schedule (none :: levels) text).map (· + 1) := by
  have hop : isOperator '(' = false := rfl
  have hdues : dues ('(' :: text) 0 levels = (dues text 1 levels).map (· + 1) := by
    apply dues_cons
    intro n
    rw [reach_cons_opening, Nat.add_right_comm, Nat.zero_add, Nat.add_comm]
  simp [schedule, hdues, ownPoints_cons, hop, dues]

variable {inner : Option Operation} {outer : List (Option Operation)}

theorem schedule_cons_closing :
    schedule (inner :: outer) (')' :: text) =
      (inner.map fun _ ↦ 0).toList ++ (schedule outer text).map (· + 1) := by
  have hop : isOperator ')' = false := rfl
  have hdues : dues (')' :: text) 1 outer = (dues text 0 outer).map (· + 1) := by
    apply dues_cons
    intro n
    rw [Nat.add_comm 1 n, reach_succ_cons_closing, Nat.zero_add]
  simp [schedule, dues, hdues, ownPoints_cons, hop, reach_zero_cons_closing]

/-- The operator that waited is released at once, and the new one waits. -/
theorem schedule_cons_symbol_perm (op : Operation) :
    (schedule (inner :: outer) (op.symbol :: text)).Perm
      ((inner.map fun _ ↦ 0).toList ++ (schedule (some op :: outer) text).map (· + 1)) := by
  have hdues : dues (op.symbol :: text) 1 outer = (dues text 1 outer).map (· + 1) := by
    apply dues_cons
    intro n
    rw [Nat.add_comm 1 n, reach_succ_cons_symbol]
  have hleft : schedule (inner :: outer) (op.symbol :: text) =
      (inner.map fun _ ↦ 0).toList ++ ((dues text 1 outer).map (· + 1) ++
        (reach 0 text + 1) :: (ownPoints text).map (· + 1)) := by
    simp [schedule, dues, hdues, ownPoints_cons, isOperator_symbol, reach_zero_cons_symbol]
  have hright : (schedule (some op :: outer) text).map (· + 1) =
      (reach 0 text + 1) :: ((dues text 1 outer).map (· + 1) ++
        (ownPoints text).map (· + 1)) := by
    simp [schedule, dues]
  rw [hleft, hright]
  exact List.perm_middle.append_left _

/-! ## Supply -/

/-- Before each of `points` there are more values, counting `held` of them from the
start, than points up to it. -/
def SuppliedFrom (held : Nat) (before : Char) (points : List Nat) (text : List Char) : Prop :=
  ∀ n ∈ points, 1 + points.countP (· ≤ n) ≤ held + runsAfter before (text.take n)

theorem supplied_iff (text : List Char) :
    Supplied text ↔ SuppliedFrom 0 ' ' (schedule [none] text) text := by
  have hschedule : schedule [none] text = (operatorPlaces text).map (releasePoint text) := rfl
  simp only [Supplied, SuppliedFrom, hschedule, List.forall_mem_map, List.countP_map, digitRuns,
    Function.comp_def, Nat.zero_add]

variable {held : Nat} {before : Char} {points : List Nat}

theorem SuppliedFrom.of_perm {points' : List Nat} (hperm : points.Perm points')
    (h : SuppliedFrom held before points text) : SuppliedFrom held before points' text := by
  intro n hn
  rw [← hperm.countP_eq]
  exact h n (hperm.mem_iff.mpr hn)

theorem suppliedFrom_congr_perm {points' : List Nat} (hperm : points.Perm points') :
    SuppliedFrom held before points text ↔ SuppliedFrom held before points' text :=
  ⟨.of_perm hperm, .of_perm hperm.symm⟩

theorem runsAfter_cons (before c : Char) (text : List Char) :
    runsAfter before (c :: text) =
      (if c.isDigit && !before.isDigit then 1 else 0) + runsAfter c text := by
  rw [runsAfter, List.zip_cons_cons, List.countP_cons, Nat.add_comm]
  rfl

theorem suppliedFrom_cons :
    SuppliedFrom held before (points.map (· + 1)) (c :: text) ↔
      SuppliedFrom (held + if c.isDigit && !before.isDigit then 1 else 0) c points text := by
  simp only [SuppliedFrom, List.forall_mem_map, List.countP_map, Function.comp_def,
    Nat.add_le_add_iff_right, List.take_succ_cons, runsAfter_cons, ← Nat.add_assoc]

/-- A release at once needs two values and leaves one less. -/
theorem suppliedFrom_zero_cons :
    SuppliedFrom held before (0 :: points.map (· + 1)) text ↔
      2 ≤ held ∧ SuppliedFrom (held - 1) before (points.map (· + 1)) text := by
  have hnone : (points.map (· + 1)).countP (· ≤ 0) = 0 := by
    rw [List.countP_eq_zero]
    simp
  constructor
  · intro h
    have hfirst := h 0 List.mem_cons_self
    rw [List.countP_cons_of_pos (by simp), hnone] at hfirst
    have htwo : 2 ≤ held := by simpa [runsAfter] using hfirst
    refine ⟨htwo, fun n hn ↦ ?_⟩
    have hn' := h n (List.mem_cons_of_mem 0 hn)
    rw [List.countP_cons_of_pos (by simp)] at hn'
    omega
  · rintro ⟨htwo, h⟩ n hn
    rcases List.mem_cons.mp hn with rfl | hn
    · rw [List.countP_cons_of_pos (by simp), hnone]
      omega
    · have hn' := h n hn
      rw [List.countP_cons_of_pos (by simp)]
      omega

theorem schedule_none_nil (text : List Char) : schedule [none] text = ownPoints text := rfl

end Infix
end Reckoner
