import Reckoner.Proofs.Infix.Moves
import Reckoner.Proofs.Outcome.Faults

/-!
# Where a conversion fails

Conversion runs over the marked text and stops at the first character it refuses.  That
place is found in the text itself: it is the first one whose character is unknown, or
closes a group while the text before it leaves none open.  A text without such a place is
read to its end, and then converts unless it leaves a group open.
-/

namespace Reckoner
namespace Infix

open Text

/-- The character at place `i` is unknown, or closes a group where none is open. -/
def Refused (t : OperatorTable) (text : List Char) (i : Nat) : Prop :=
  ∃ c ∈ text[i]?, Unknown t c ∨ c = ')' ∧ unclosed (text.take i) = 0

instance (t : OperatorTable) (c : Char) : Decidable (Unknown t c) :=
  inferInstanceAs (Decidable (_ ∧ _ ∧ _ ∧ _))

instance (t : OperatorTable) (text : List Char) (i : Nat) : Decidable (Refused t text i) :=
  match h : text[i]? with
  | none => .isFalse (by simp [Refused, h])
  | some c =>
    decidable_of_iff (Unknown t c ∨ c = ')' ∧ unclosed (text.take i) = 0) (by simp [Refused, h])

variable {t : OperatorTable} {x y : List Char} {c : Char} {i : Nat}

theorem refused_append_iff (h : i < x.length) : Refused t (x ++ y) i ↔ Refused t x i := by
  rw [Refused, Refused, List.getElem?_append_left h, List.take_append_of_le_length h.le]

theorem refused_length_iff :
    Refused t (x ++ c :: y) x.length ↔ Unknown t c ∨ c = ')' ∧ unclosed x = 0 := by
  simp [Refused]

theorem Waiting.any_isParenthesis (plain : t.Plain) {q : List Char} (h : Waiting t q) :
    q.any isParenthesis = true ↔ '(' ∈ q := by
  rw [List.any_eq_true]
  constructor
  · rintro ⟨c, hc, hparen⟩
    exact h.eq_opening plain hc hparen ▸ hc
  · exact fun hc ↦ ⟨'(', hc, rfl⟩

/-- A text without a refused character is read to its end, and as many opening
parentheses wait then as it has left open. -/
theorem exists_emit_of_not_refused (plain : t.Plain) (x : List Char)
    (h : ∀ i < x.length, ¬Refused t x i) :
    ∃ a q, emit t .empty (markChars x) = .ok (a, ⟨q⟩) ∧ Waiting t q ∧
      q.count '(' = unclosed x := by
  induction x using List.reverseRecOn with
  | nil => exact ⟨[], [], rfl, fun c hc ↦ absurd hc List.not_mem_nil, rfl⟩
  | append_singleton x c ih =>
      rw [List.length_append, List.length_singleton] at h
      obtain ⟨a, q, hx, hwaiting, hcount⟩ := ih fun i hi ↦
        mt (refused_append_iff hi).mpr (h i (Nat.lt_succ_of_lt hi))
      have hlast := mt refused_length_iff.mpr (h x.length (Nat.lt_succ_self _))
      rcases respond_cases plain q c with ⟨b, r, hc, hmove⟩ | ⟨hunknown, -⟩ | ⟨⟨rfl, hopen⟩, -⟩
      · have hstep := emit_markAfter_singleton (t := t) ⟨q⟩ (x.getLastD ' ') c
        rw [hc, map_ok] at hstep
        have hwhole := emit_append_of_ok hx hstep
        rw [← markChars_append] at hwhole
        refine ⟨_, r, hwhole, hmove.waiting hwaiting, ?_⟩
        rw [hmove.count_opening plain, hcount, unclosed_append_singleton]
      · exact absurd (.inl hunknown) hlast
      · exact absurd (.inr ⟨rfl, hcount ▸ List.count_eq_zero.mpr hopen⟩) hlast

/-- The first refused character stops the conversion, whatever follows it. -/
theorem convert_eq_error {e : SyntaxError} {p : Stack Char} {a : List Char}
    (hx : emit t .empty (markChars x) = .ok (a, p)) (hc : respond t p c = .error e) :
    convert t (x ++ c :: y) = .error e := by
  have hstep : emit t p (markAfter (x.getLastD ' ') [c]) = .error e := by
    rw [emit_markAfter_singleton, hc, map_error]
  have hmarked : markAfter (x.getLastD ' ') (c :: y) =
      markAfter (x.getLastD ' ') [c] ++ markAfter c y := markAfter_append _ [c] y
  rw [convert, convertMarked_eq_emit, markChars_append, hmarked, emit_append, hx, ok_bind,
    emit_append, hstep, error_bind, map_error, error_bind]

theorem convert_of_not_refused (plain : t.Plain) (h : ∀ i < x.length, ¬Refused t x i) :
    (unclosed x ≠ 0 → convert t x = .error .mismatchedParentheses) ∧
      (unclosed x = 0 → ∃ chars, convert t x = .ok chars) := by
  obtain ⟨a, q, hx, hwaiting, hcount⟩ := exists_emit_of_not_refused plain x h
  have hparen : q.any isParenthesis = true ↔ unclosed x ≠ 0 := by
    rw [hwaiting.any_isParenthesis plain, ← hcount, ← List.count_pos_iff, Nat.pos_iff_ne_zero]
  rw [convert, convertMarked_eq_emit, hx, ok_bind]
  exact ⟨fun hopen ↦ if_pos (hparen.mpr hopen),
    fun hclosed ↦ ⟨_, if_neg fun hany ↦ hparen.mp hany hclosed⟩⟩

theorem convert_of_first_refused (plain : t.Plain) (hfirst : ∀ j < x.length,
    ¬Refused t (x ++ c :: y) j) :
    (Unknown t c → convert t (x ++ c :: y) = .error (.unknownToken c)) ∧
      (c = ')' → unclosed x = 0 →
        convert t (x ++ c :: y) = .error .mismatchedParentheses) := by
  obtain ⟨a, q, hx, -, hcount⟩ := exists_emit_of_not_refused plain x fun j hj ↦
    mt (refused_append_iff hj).mpr (hfirst j hj)
  constructor
  · rintro ⟨hblank, hoperand, hnone, hparen⟩
    exact convert_eq_error hx (respond_eq_error hblank hoperand hnone hparen)
  · rintro rfl hclosed
    have hopen : '(' ∉ q := List.count_eq_zero.mp (hcount.trans hclosed)
    exact convert_eq_error hx ((respond_closing plain).trans (closeGroup_eq_error_of_notMem hopen))

/-- A conversion of `text` under a plain table fails exactly at the first refused
character, or at the end for a group left open, and raises nothing but its own errors. -/
theorem toPostfix_of_refusals {t : OperatorTable} (plain : t.Plain) (text : String) :
    Raising.toPostfix t text = (toPostfix t text).mapError .unreadable ∧
      (∀ i c, text.toList[i]? = some c → (∀ j < i, ¬Refused t text.toList j) →
        (Unknown t c → (toPostfix t text).mapError SyntaxError.message =
          .error ("Unknown token: " ++ String.singleton c)) ∧
        (c = ')' → unclosed (text.toList.take i) = 0 →
          (toPostfix t text).mapError SyntaxError.message =
            .error "Parentheses mismatched")) ∧
      ((∀ i < text.toList.length, ¬Refused t text.toList i) →
        (unclosed text.toList ≠ 0 → (toPostfix t text).mapError SyntaxError.message =
          .error "Parentheses mismatched") ∧
        (unclosed text.toList = 0 → ∃ stream, toPostfix t text = .ok stream)) := by
  refine ⟨Raising.toPostfix_eq text, fun i c hc hfirst ↦ ?_, fun hread ↦ ?_⟩
  · obtain ⟨hi, rfl⟩ := List.getElem?_eq_some_iff.mp hc
    have hlength : (text.toList.take i).length = i := List.length_take_of_le hi.le
    have hsplit : text.toList =
        text.toList.take i ++ text.toList[i] :: text.toList.drop (i + 1) := by
      rw [List.getElem_cons_drop, List.take_append_drop]
    have hstop := convert_of_first_refused (t := t) (x := text.toList.take i)
      (c := text.toList[i]) (y := text.toList.drop (i + 1)) plain (by
        rw [← hsplit, hlength]
        exact hfirst)
    rw [← hsplit] at hstop
    rw [toPostfix]
    refine ⟨fun hunknown ↦ ?_, fun hclosing hclosed ↦ ?_⟩
    · rw [hstop.1 hunknown]
      rfl
    · rw [hstop.2 hclosing hclosed]
      rfl
  · obtain ⟨hopen, hclosed⟩ := convert_of_not_refused plain hread
    rw [toPostfix]
    refine ⟨fun h ↦ ?_, fun h ↦ ?_⟩
    · rw [hopen h]
      rfl
    · obtain ⟨chars, hchars⟩ := hclosed h
      exact ⟨_, by rw [hchars, map_ok]⟩

/-- A character of no kind, a parenthesis that closes nothing, and one left open; under a
table in which `^` is an operator. -/
theorem toPostfix_of_refusals_power :
    (OperatorTable.standard.insert '^' ⟨3, .right⟩).Plain ∧
      (toPostfix (.insert .standard '^' ⟨3, .right⟩) "2^(3!4))(").mapError SyntaxError.message =
        .error "Unknown token: !" ∧
      (toPostfix (.insert .standard '^' ⟨3, .right⟩) "2^(3 4))!").mapError SyntaxError.message =
        .error "Parentheses mismatched" ∧
      (toPostfix (.insert .standard '^' ⟨3, .right⟩) "(2^(3 4)").mapError SyntaxError.message =
        .error "Parentheses mismatched" := by
  have plain : (OperatorTable.standard.insert '^' ⟨3, .right⟩).Plain :=
    OperatorTable.plain_standard.insert _ (by decide)
  obtain ⟨-, hunknown, -⟩ := toPostfix_of_refusals plain "2^(3!4))("
  obtain ⟨-, hclosing, -⟩ := toPostfix_of_refusals plain "2^(3 4))!"
  obtain ⟨-, -, hend⟩ := toPostfix_of_refusals plain "(2^(3 4)"
  exact ⟨plain, (hunknown 4 '!' (by decide) (by decide)).1 (by decide),
    (hclosing 7 ')' (by decide) (by decide)).2 rfl (by decide), (hend (by decide)).1 (by decide)⟩

end Infix
end Reckoner
