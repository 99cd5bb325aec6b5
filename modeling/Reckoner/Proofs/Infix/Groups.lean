import Reckoner.Proofs.Infix.Levels
import Reckoner.Proofs.Infix.Moves

/-!
# Groups are converted on their own

No conversion looks below an opening parenthesis that waits: nothing releases it but
the closing one that matches it.  So a text in parentheses releases, wherever it stands,
exactly what it is converted to by itself, and leaves what waited around it alone.  A
number does so too, and either can be the operand of an operator.
-/

namespace Reckoner
namespace Infix

open Text

variable {t : OperatorTable} {p q below a x : List Char} {c : Char}

/-! ## What lies below an open group -/

theorem emit_above (plain : t.Plain) (h : emit t ⟨p⟩ x = .ok (a, ⟨q⟩)) :
    emit t ⟨p ++ '(' :: below⟩ x = .ok (a, ⟨q ++ '(' :: below⟩) := by
  induction x generalizing p a with
  | nil =>
      obtain ⟨rfl, hq⟩ := parts_eq emit_nil h
      obtain rfl := Stack.mk.inj hq
      exact emit_nil
  | cons c x ih =>
      obtain ⟨now, ⟨r⟩, later, hc, hrest, rfl⟩ := emit_cons_eq_ok_iff.mp h
      have hmove := (move_of_respond plain hc).above plain below
      exact emit_cons_of_ok (hmove.respond_eq plain) (ih hrest)

/-- In parentheses a text releases what it is converted to, and nothing else changes. -/
theorem emit_group (plain : t.Plain) {e chars : List Char} (h : convert t e = .ok chars)
    (outer : Stack Char) :
    emit t outer ('(' :: (markChars e ++ [')'])) = .ok (chars, outer) := by
  obtain ⟨a, q, hemit, hparen, rfl⟩ := convertMarked_eq_ok_iff.mp h
  have hnotMem : '(' ∉ q.items := fun hmem ↦
    List.any_eq_false.mp hparen '(' hmem rfl
  have hinner : emit t (outer.push '(') (markChars e) = .ok (a, ⟨q.items ++ '(' :: outer.items⟩) :=
    emit_above (p := []) plain hemit
  -- what the text leaves waiting is released here by the parenthesis, alone by its end
  have hclose : emit t ⟨q.items ++ '(' :: outer.items⟩ [')'] = .ok (q.items, outer) := by
    have hrespond := respond_closing (p := ⟨q.items ++ '(' :: outer.items⟩) plain
    rw [closeGroup_of_notMem hnotMem] at hrespond
    simpa using emit_cons_of_ok hrespond emit_nil
  have hbody := emit_append_of_ok hinner hclose
  have hall := emit_cons_of_ok (respond_opening plain) hbody
  exact hall

/-! ## Marked texts -/

theorem markAfter_cons_of_not_word {before : Char} (hc : isWord c = false) (y : List Char) :
    markAfter before (c :: y) = c :: markChars y := by
  have hspace : isWord c = isWord ' ' := hc
  rw [markAfter_cons, beginsWord_eq_false hc, if_neg Bool.false_ne_true, markAfter_congr hspace]
  rfl

@[simp] theorem markChars_nil : markChars [] = [] := rfl

theorem markChars_cons_of_not_word (hc : isWord c = false) (y : List Char) :
    markChars (c :: y) = c :: markChars y :=
  markAfter_cons_of_not_word hc y

/-- Words end where no word character stands. -/
theorem markChars_append_cons (hc : isWord c = false) (x y : List Char) :
    markChars (x ++ c :: y) = markChars x ++ c :: markChars y := by
  rw [markChars, markAfter_append, markAfter_cons_of_not_word hc]
  rfl

theorem markChars_group (x e y : List Char) :
    markChars (x ++ '(' :: (e ++ ')' :: y)) =
      markChars x ++ ('(' :: (markChars e ++ [')']) ++ markChars y) := by
  rw [markChars_append_cons (c := '(') rfl, markChars_append_cons (c := ')') rfl]
  simp

/-! ## Operands -/

/-- Whatever waits before `text`, it releases `out` and leaves that as it is. -/
def SelfContained (t : OperatorTable) (text out : List Char) : Prop :=
  ∀ outer, emit t outer (markChars text) = .ok (out, outer)

theorem SelfContained.convert_eq {text out : List Char} (h : SelfContained t text out) :
    convert t text = .ok out := by
  rw [convert, convertMarked_of_emit (h .empty) rfl, Stack.items_empty, List.append_nil]

theorem selfContained_group (plain : t.Plain) {e chars : List Char}
    (h : convert t e = .ok chars) : SelfContained t ('(' :: (e ++ [')'])) chars := by
  intro outer
  have hmarked : markChars ('(' :: (e ++ [')'])) = '(' :: (markChars e ++ [')']) := by
    simpa using markChars_group [] e []
  rw [hmarked]
  exact emit_group plain h outer

theorem selfContained_digits {w : List Char} (hne : w ≠ []) (hw : ∀ c ∈ w, c.isDigit = true) :
    SelfContained t w (marker :: w) := by
  intro outer
  have htokens : tokens w = [.word w] := by
    have hword := tokens_append_word hne (fun c hc ↦ isWord_of_isDigit (hw c hc)) startsWord_nil
    rwa [List.append_nil] at hword
  have hmarked : [Token.word w].flatMap Token.marked = marker :: w := List.append_nil _
  rw [← emit_filter_visible, filter_visible_markChars, htokens, hmarked]
  exact emit_operand hw

/-- A further operator applies to everything before it. -/
theorem convert_operator {y chars out : List Char} (hx : convert .standard x = .ok chars)
    (hy : SelfContained .standard y out) (op : Operation) :
    convert .standard (x ++ op.symbol :: y) = .ok (chars ++ out ++ [op.symbol]) := by
  obtain ⟨before, level, rfl, hemit⟩ := exists_emit_of_convert hx
  have hoperand := hy (waiting (some op) [])
  have hall := emit_append_of_ok hemit (emit_cons_of_ok (respond_symbol op) hoperand)
  rw [convert, markChars_append_cons (isWord_symbol op),
    convertMarked_of_emit hall any_isParenthesis_waiting]
  simp [waiting, symbols]

theorem convert_operator_group {e chars chars' : List Char}
    (hx : convert .standard x = .ok chars) (he : convert .standard e = .ok chars')
    (op : Operation) :
    convert .standard (x ++ op.symbol :: '(' :: (e ++ [')'])) =
      .ok (chars ++ chars' ++ [op.symbol]) :=
  convert_operator hx (selfContained_group OperatorTable.plain_standard he) op

end Infix
end Reckoner
