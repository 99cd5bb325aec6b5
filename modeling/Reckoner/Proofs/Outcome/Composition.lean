import Reckoner.Proofs.Infix.Groups
import Reckoner.Proofs.Outcome.Soundness
import Reckoner.Proofs.Postfix.Reduction

/-!
# Values compose

A text without markers is converted to a list of items.  If it has a value, its items
alone leave that value, so on any stack they push it and touch nothing below.  Two
texts with values, the second in parentheses after an operator, therefore have the
value of the operation on theirs, whether or not they are well formed.
-/

namespace Reckoner

open Text Infix Postfix

variable {inner : Option Operation} {outer : List (Option Operation)}

theorem exists_items_symbols (level : Option Operation) :
    ∃ items : List Item, symbols level = items.flatMap Item.chars := by
  cases level with
  | none => exact ⟨[], rfl⟩
  | some op => exact ⟨[.operation op], rfl⟩

/-- A text releases items, after the digits that go on with a number begun before it. -/
theorem exists_items_of_emit {before : Char} {text out : List Char} {r : Stack Char}
    (hmark : marker ∉ text)
    (h : emit .standard (waiting inner outer) (markAfter before text) = .ok (out, r)) :
    ∃ (digits : List Char) (items : List Item), out = digits ++ items.flatMap Item.chars ∧
      (∀ c ∈ digits, c.isDigit = true) ∧ (isWord before = false → digits = []) := by
  induction text generalizing before inner outer out with
  | nil =>
      obtain ⟨rfl, -⟩ := parts_eq emit_nil h
      exact ⟨[], [], rfl, by simp, fun _ ↦ rfl⟩
  | cons c text ih =>
      obtain ⟨a, q, later, hc, hrest, rfl⟩ := emit_markAfter_cons_eq_ok h
      obtain ⟨inner', outer', rfl, hturn⟩ := exists_turn hc
      obtain ⟨digits, items, rfl, hdigits, hbegins⟩ :=
        ih (fun hm ↦ hmark (List.mem_cons_of_mem c hm)) hrest
      by_cases hw : isWord c = true
      · obtain ⟨hoperand, rfl⟩ := hturn.of_word hw
        have hne : c ≠ marker := fun heq ↦ hmark (heq ▸ List.mem_cons_self)
        have hdigit : c.isDigit = true := by simpa [isOperandChar, hne] using hoperand
        have hall : ∀ d ∈ c :: digits, d.isDigit = true :=
          List.forall_mem_cons.mpr ⟨hdigit, hdigits⟩
        by_cases hbefore : isWord before = true
        · refine ⟨c :: digits, items, by simp [beginsWord, hbefore], hall, fun hnot ↦ ?_⟩
          exact absurd (hnot.symm.trans hbefore) Bool.false_ne_true
        · refine ⟨[], .number ⟨c :: digits, by simp, hall⟩ :: items, ?_, by simp, fun _ ↦ rfl⟩
          simp [beginsWord, hw, hbefore, Item.chars]
      · rw [Bool.not_eq_true] at hw
        obtain ⟨level, rfl⟩ := hturn.of_not_word hw
        obtain ⟨released, hreleased⟩ := exists_items_symbols level
        obtain rfl := hbegins hw
        refine ⟨[], released ++ items, ?_, by simp, fun _ ↦ rfl⟩
        simp [beginsWord, hw, hreleased]

theorem exists_items_of_convert {text chars : List Char} (hmark : marker ∉ text)
    (h : convert .standard text = .ok chars) :
    ∃ items : List Item, chars = items.flatMap Item.chars := by
  obtain ⟨out, level, rfl, hemit⟩ := exists_emit_of_convert h
  obtain ⟨digits, items, rfl, -, hbegins⟩ := exists_items_of_emit hmark hemit
  obtain rfl : digits = [] := hbegins rfl
  obtain ⟨released, hreleased⟩ := exists_items_symbols level
  exact ⟨items ++ released, by simp [hreleased]⟩

/-- The items of a text that succeeds leave its value alone on the stack. -/
theorem exists_reduce_of_success {text : String} (hmark : marker ∉ text.toList)
    (h : (outcomeOf text).success = true) :
    ∃ items : List Item, convert .standard text.toList = .ok (items.flatMap Item.chars) ∧
      reduce [] items = some [(outcomeOf text).value] := by
  obtain ⟨stream, value, hstream, hvalue, hnumber⟩ := exists_of_success h
  have houtcome : outcomeOf text = .succeeded value := by
    rw [outcomeOf, valueOf_of_evaluate hstream hvalue, hnumber, if_neg Bool.false_ne_true]
    rfl
  obtain ⟨chars, hchars, rfl⟩ := toPostfix_eq_ok_iff.mp hstream
  obtain ⟨items, rfl⟩ := exists_items_of_convert hmark hchars
  rw [houtcome]
  exact ⟨items, hchars, reduce_of_evaluate_encode hvalue hnumber⟩

theorem reduce_operation {a b : Binary64} {items items' : List Item}
    (ha : reduce [] items = some [a]) (hb : reduce [] items' = some [b]) (op : Operation) :
    reduce [] (items ++ items' ++ [.operation op]) = some [op.apply a b] := by
  have hboth : reduce [a] items' = some [b, a] := reduce_append_below hb [a]
  rw [reduce_append, reduce_append, ha, Option.bind_some, hboth]
  rfl

/-- Whatever two texts without markers are, if they succeed then so does the first with
the second in parentheses after an operator, unless no number results, and the value is
that of the operation on theirs. -/
theorem outcomeOf_operator_group {x e : String} (hx : marker ∉ x.toList)
    (he : marker ∉ e.toList) (hxsuccess : (outcomeOf x).success = true)
    (hesuccess : (outcomeOf e).success = true) (op : Operation) :
    outcomeOf (x ++ String.singleton op.symbol ++ "(" ++ e ++ ")") =
      if (op.apply (outcomeOf x).value (outcomeOf e).value).isNan then
        .failed "Invalid Expression"
      else .succeeded (op.apply (outcomeOf x).value (outcomeOf e).value) := by
  obtain ⟨items, hconvert, hreduce⟩ := exists_reduce_of_success hx hxsuccess
  obtain ⟨items', hconvert', hreduce'⟩ := exists_reduce_of_success he hesuccess
  have htoList : (x ++ String.singleton op.symbol ++ "(" ++ e ++ ")").toList =
      x.toList ++ op.symbol :: '(' :: (e.toList ++ [')']) := by simp
  have hstream : toPostfix .standard (x ++ String.singleton op.symbol ++ "(" ++ e ++ ")") =
      .ok (encode (items ++ items' ++ [.operation op])) := by
    rw [toPostfix, htoList, convert_operator_group hconvert hconvert', map_ok, encode]
    simp [Item.chars]
  have hvalue := evaluate_encode_of_some (reduce_operation hreduce hreduce' op)
  rw [outcomeOf, valueOf_of_evaluate hstream hvalue]
  split <;> rfl

/-- Neither of the two texts is well formed. -/
theorem outcomeOf_quotient_group :
    marker ∉ "1 2+".toList ∧ marker ∉ "()4".toList ∧
      (outcomeOf "1 2+").success = true ∧ (outcomeOf "()4").success = true ∧
        outcomeOf "1 2+/(()4)" = .succeeded (Operation.divide.apply (.ofNat 3) (.ofNat 4)) := by
  have hx : marker ∉ "1 2+".toList := by decide
  have he : marker ∉ "()4".toList := by decide
  have hthree : outcomeOf "1 2+" = .succeeded (.ofNat 3) := by decide +kernel
  have hfour : outcomeOf "()4" = .succeeded (.ofNat 4) := by decide +kernel
  have hxsuccess : (outcomeOf "1 2+").success = true := by rw [hthree, Outcome.succeeded]
  have hesuccess : (outcomeOf "()4").success = true := by rw [hfour, Outcome.succeeded]
  have hnumber : (Operation.divide.apply (.ofNat 3) (.ofNat 4)).isNan = false := by
    decide +kernel
  have houtcome := outcomeOf_operator_group hx he hxsuccess hesuccess .divide
  simp only [hthree, hfour, Outcome.succeeded] at houtcome
  rw [hnumber, if_neg Bool.false_ne_true] at houtcome
  exact ⟨hx, he, hxsuccess, hesuccess, houtcome⟩

end Reckoner
