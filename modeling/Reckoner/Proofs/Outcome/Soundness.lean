import Reckoner.Proofs.Infix.Adjacency
import Reckoner.Proofs.Outcome.Acceptance
import Reckoner.Proofs.Outcome.LeftToRight

/-!
# Which accepted texts are expressions

Acceptance goes by counts, so a text can be accepted without being well formed.  It is
well formed exactly if, blanks aside, it holds nothing but digits, operators and
parentheses, no pair of parentheses is empty, and every operator has an operand
directly on either side.
-/

namespace Reckoner

open Text Infix Postfix

/-- The visible characters, with a blank before the first and after the last. -/
def edged (text : List Char) : List Char :=
  ' ' :: (text.filter (fun c ↦ !isBlank c) ++ [' '])

/-- Some operator lacks an operand directly to its left or to its right. -/
def HasDanglingOperator (text : List Char) : Prop :=
  ∃ x a c b y, edged text = x ++ a :: c :: b :: y ∧ isOperator c = true ∧
    ¬(endsOperand a = true ∧ startsOperand b = true)

def HasEmptyPair (text : List Char) : Prop :=
  ∃ x y, edged text = x ++ '(' :: ')' :: y

/-- Some character is neither a blank nor a digit, operator or parenthesis. -/
def HasForeign (text : List Char) : Prop :=
  ∃ c ∈ text, isBlank c = false ∧ c.isDigit = false ∧ isOperator c = false ∧
    isParenthesis c = false

instance (text : List Char) : Decidable (HasForeign text) :=
  List.decidableBEx _ text

/-! ## Parentheses match -/

/-- After closing `depth` open groups, the tokens are balanced. -/
def Closes : Nat → List Token → Prop
  | 0, ts => Balanced ts
  | depth + 1, ts => ∃ x y, ts = x ++ .sign ')' :: y ∧ Balanced x ∧ Closes depth y

variable {depth : Nat} {ts : List Token}

theorem Closes.number (n : Numeral) (h : Closes depth ts) :
    Closes depth (.word n.digits :: ts) := by
  cases depth with
  | zero => exact Balanced.number n h
  | succ depth =>
      obtain ⟨x, y, rfl, hx, hy⟩ := h
      exact ⟨.word n.digits :: x, y, rfl, .number n hx, hy⟩

theorem Closes.operator (op : Operation) (h : Closes depth ts) :
    Closes depth (.sign op.symbol :: ts) := by
  cases depth with
  | zero => exact Balanced.operator op h
  | succ depth =>
      obtain ⟨x, y, rfl, hx, hy⟩ := h
      exact ⟨.sign op.symbol :: x, y, rfl, .operator op hx, hy⟩

theorem Closes.opening (h : Closes (depth + 1) ts) : Closes depth (.sign '(' :: ts) := by
  obtain ⟨x, y, rfl, hx, hy⟩ := h
  cases depth with
  | zero => exact Balanced.group hx hy
  | succ depth =>
      obtain ⟨x', y', rfl, hx', hy'⟩ := hy
      exact ⟨.sign '(' :: (x ++ .sign ')' :: x'), y', by simp, .group hx hx', hy'⟩

theorem Closes.closing (h : Closes depth ts) : Closes (depth + 1) (.sign ')' :: ts) :=
  ⟨[], ts, rfl, .nil, h⟩

variable {inner : Option Operation} {outer : List (Option Operation)} {p r : Stack Char}
  {out : List Char}

/-- Tokens that are read to the end close the groups that were open. -/
theorem closes_of_emit_eq_ok (hproper : ∀ tok ∈ ts, tok.Proper)
    (hdigits : ∀ w, .word w ∈ ts → ∀ c ∈ w, c.isDigit = true)
    (h : emit .standard (waiting inner outer) (ts.flatMap Token.marked) = .ok (out, r))
    (hr : r.items.any isParenthesis = false) : Closes outer.length ts := by
  induction ts generalizing inner outer out with
  | nil =>
      obtain ⟨-, rfl⟩ := parts_eq emit_nil h
      rw [any_isParenthesis_waiting] at hr
      obtain rfl : outer = [] := by simpa using hr
      exact Balanced.nil
  | cons tok ts ih =>
      have hproper' : ∀ tok ∈ ts, tok.Proper := fun x hx ↦ hproper x (List.mem_cons_of_mem _ hx)
      have hdigits' : ∀ w, .word w ∈ ts → ∀ c ∈ w, c.isDigit = true :=
        fun w hw ↦ hdigits w (List.mem_cons_of_mem _ hw)
      have htok := hproper tok List.mem_cons_self
      rw [List.flatMap_cons] at h
      cases tok with
      | word w =>
          obtain ⟨a, q, b, hword, hrest, rfl⟩ := exists_of_emit_append_eq_ok h
          have hw := hdigits w List.mem_cons_self
          obtain ⟨-, rfl⟩ := parts_eq (emit_operand hw) hword
          exact (ih hproper' hdigits' hrest).number ⟨w, htok.1, hw⟩
      | sign c =>
          obtain ⟨a, q, b, hc, hrest, rfl⟩ := emit_cons_eq_ok_iff.mp h
          have hne : c ≠ marker := by
            rintro rfl
            exact absurd htok.1 (by decide)
          rcases kind_of_respond_eq_ok hc hne with hblank | hdigit | ⟨op, rfl⟩ | rfl | rfl
          · exact absurd (hblank.symm.trans htok.2) Bool.noConfusion
          · exact absurd ((isWord_of_isDigit hdigit).symm.trans htok.1) Bool.noConfusion
          · obtain ⟨-, rfl⟩ := parts_eq (respond_symbol op) hc
            exact (ih hproper' hdigits' hrest).operator op
          · obtain ⟨-, rfl⟩ := parts_eq respond_opening_standard hc
            exact (ih hproper' hdigits' hrest).opening
          · cases outer with
            | nil => exact absurd (respond_closing_standard_nil.symm.trans hc) error_ne_ok
            | cons level outer =>
                obtain ⟨-, rfl⟩ := parts_eq respond_closing_standard hc
                exact (ih hproper' hdigits' hrest).closing

/-! ## Counts of a text and of its tokens -/

variable {text : List Char}

theorem isDigit_of_isWord (h : ¬HasForeign text) {c : Char} (hc : c ∈ text)
    (hw : isWord c = true) : c.isDigit = true := by
  rw [← Bool.not_eq_false]
  intro hdigit
  exact h ⟨c, hc, isBlank_eq_false_of_isWord hw, hdigit, isOperator_eq_false_of_isWord hw,
    isParenthesis_eq_false_of_isWord hw⟩

/-- The run that goes on from `before` is a number of its own, and none that begins. -/
theorem runsAfter_add_eq_numbers {before : Char} (hbefore : isWord before = before.isDigit)
    (hdigits : ∀ c ∈ text, isWord c = true → c.isDigit = true) :
    runsAfter before text + (if isWord before && startsWord text then 1 else 0) =
      numbers (tokens text) := by
  induction text generalizing before with
  | nil => simp [runsAfter]
  | cons c text ih =>
      have hdigits' : ∀ c ∈ text, isWord c = true → c.isDigit = true :=
        fun d hd ↦ hdigits d (List.mem_cons_of_mem c hd)
      rw [runsAfter_cons, startsWord_cons]
      cases hw : isWord c with
      | false =>
          have hd := isDigit_eq_false_of_not_word hw
          have hrest := ih (hw.trans hd.symm) hdigits'
          cases hb : isBlank c with
          | true => simpa [hw, hd, tokens_cons_blank hb] using hrest
          | false => simpa [hw, hd, tokens_cons_sign hb hw] using hrest
      | true =>
          have hd : c.isDigit = true := hdigits c List.mem_cons_self hw
          have hrest := ih (hw.trans hd.symm) hdigits'
          have hcount : numbers (tokens (c :: text)) = runsAfter c text + 1 := by
            rw [tokens_cons_word hw]
            cases hstart : startsWord text with
            | false =>
                rw [if_neg Bool.false_ne_true, numbers_word_cons]
                simpa [hw, hstart] using hrest.symm
            | true =>
                obtain ⟨w, rest, htokens⟩ := exists_tokens_eq_word hstart
                rw [htokens] at hrest ⊢
                rw [if_pos rfl, extendWord, numbers_word_cons]
                simpa [hw, hstart] using hrest.symm
          rw [hcount, hd, hbefore]
          cases before.isDigit <;> simp [Nat.add_comm]

theorem digitRuns_eq_numbers (h : ¬HasForeign text) :
    digitRuns text = numbers (tokens text) := by
  have hspace : isWord ' ' = false := rfl
  have hcount : runsAfter ' ' text + (if isWord ' ' && startsWord text then 1 else 0) =
      numbers (tokens text) :=
    runsAfter_add_eq_numbers rfl fun c ↦ isDigit_of_isWord h
  rwa [hspace, Bool.false_and, if_neg Bool.false_ne_true, Nat.add_zero] at hcount

theorem length_operatorPlaces (text : List Char) :
    (operatorPlaces text).length = operators (tokens text) := by
  rw [operatorPlaces, List.length_findIdxs]
  induction text with
  | nil => rfl
  | cons c text ih =>
      rw [List.countP_cons, ih]
      cases hb : isBlank c with
      | true =>
          have hop := isOperator_eq_false_of_isBlank hb
          rw [tokens_cons_blank hb, hop, if_neg Bool.false_ne_true, Nat.add_zero]
      | false =>
          cases hw : isWord c with
          | false =>
              rw [tokens_cons_sign hb hw, operators, operators, List.countP_cons]
              rfl
          | true =>
              have hop := isOperator_eq_false_of_isWord hw
              rw [tokens_cons_word hw, hop, if_neg Bool.false_ne_true, Nat.add_zero]
              cases hstart : startsWord text with
              | false => rw [if_neg Bool.false_ne_true, operators_word_cons]
              | true =>
                  obtain ⟨w, rest, htokens⟩ := exists_tokens_eq_word hstart
                  rw [htokens, if_pos rfl, extendWord, operators_word_cons,
                    operators_word_cons]

/-! ## Defects -/

theorem isChain_edged_iff :
    (edged text).IsChain Fits ↔ ¬HasDanglingOperator text ∧ ¬HasEmptyPair text := by
  rw [List.isChain_iff_forall_rel_of_append_cons_cons]
  constructor
  · intro hfits
    constructor
    · rintro ⟨x, a, c, b, y, hedged, hop, hdangling⟩
      have hleft : Fits a c := hfits hedged
      have hright : Fits c b := hfits (hedged.trans (List.append_cons x a _))
      exact hdangling ⟨hleft.left hop, hright.right hop⟩
    · rintro ⟨x, y, hedged⟩
      exact (hfits hedged).pair rfl rfl
  · rintro ⟨hdangling, hpair⟩ a b x y hedged
    have hspace : isOperator ' ' = false := rfl
    refine ⟨?_, ?_, ?_⟩
    · -- An operator is not the last character, so another one follows.
      intro hop
      cases y with
      | nil =>
          have hlast : [' '] = [b] := by
            rw [edged, ← List.cons_append, List.append_cons x a] at hedged
            exact (List.append_inj' hedged rfl).2
          obtain rfl := List.singleton_inj.mp hlast
          exact absurd (hop.symm.trans hspace) Bool.noConfusion
      | cons c y =>
          by_contra hends
          exact hdangling ⟨x, a, b, c, y, hedged, hop, fun h ↦ hends h.1⟩
    · -- Nor is it the first one.
      intro hop
      cases x using List.reverseRecOn with
      | nil =>
          obtain ⟨rfl, -⟩ := List.cons.inj hedged
          exact absurd (hop.symm.trans hspace) Bool.noConfusion
      | append_singleton x c =>
          by_contra hstarts
          refine hdangling ⟨x, c, a, b, y, ?_, hop, fun h ↦ hstarts h.2⟩
          rw [hedged, List.append_assoc, List.singleton_append]
    · rintro rfl rfl
      exact hpair ⟨x, y, hedged⟩

theorem edged_eq {ts : List Token} (h : Spells ts text) (hproper : ∀ tok ∈ ts, tok.Proper) :
    edged text = ' ' :: (ts.flatMap Token.chars ++ [' ']) := by
  rw [edged, filter_visible_eq_of_spells h hproper]

theorem not_defective_of_wellFormed (h : WellFormed text) :
    ¬HasDanglingOperator text ∧ ¬HasEmptyPair text ∧ ¬HasForeign text := by
  obtain ⟨e, hs⟩ := h
  have hproper : ∀ tok ∈ e.tokens, tok.Proper :=
    e.tokens_written ▸ e.legible_written.proper_of_mem_tokens OperatorTable.plain_standard
  have hfits : (edged text).IsChain Fits := by
    rw [edged_eq hs hproper]
    exact e.fitBetween ' ' ' '
  obtain ⟨hdangling, hpair⟩ := isChain_edged_iff.mp hfits
  refine ⟨hdangling, hpair, ?_⟩
  rintro ⟨c, hc, hblank, hdigit, hop, hparen⟩
  have hvisible : c ∈ text.filter (fun c ↦ !isBlank c) :=
    List.mem_filter.mpr ⟨hc, by rw [hblank, Bool.not_false]⟩
  rw [filter_visible_eq_of_spells hs hproper] at hvisible
  rcases e.kind_of_mem hvisible with hkind | hkind | hkind
  · exact Bool.false_ne_true (hdigit.symm.trans hkind)
  · exact Bool.false_ne_true (hop.symm.trans hkind)
  · exact Bool.false_ne_true (hparen.symm.trans hkind)

theorem balanced_tokens {chars : List Char} (hforeign : ¬HasForeign text)
    (h : convert .standard text = .ok chars) : Balanced (tokens text) := by
  have hdigits : ∀ w, .word w ∈ tokens text → ∀ c ∈ w, c.isDigit = true := by
    intro w hw c hc
    have hproper : (Token.word w).Proper := proper_of_mem_tokens hw
    have hvisible : c ∈ (tokens text).flatMap Token.chars :=
      List.mem_flatMap.mpr ⟨.word w, hw, hc⟩
    rw [← filter_visible_eq_of_spells (spells_tokens text) fun _ ↦ proper_of_mem_tokens]
      at hvisible
    exact isDigit_of_isWord hforeign (List.mem_of_mem_filter hvisible) (hproper.2 c hc)
  rw [convert_eq_convertMarked_tokens] at h
  obtain ⟨out, p, hemit, hp, -⟩ := convertMarked_eq_ok_iff.mp h
  have hwaiting : emit .standard (waiting none []) ((tokens text).flatMap Token.marked) =
      .ok (out, p) := hemit
  exact closes_of_emit_eq_ok (fun _ ↦ proper_of_mem_tokens) hdigits hwaiting hp

theorem exists_of_success {expression : String} (h : (outcomeOf expression).success = true) :
    ∃ stream value, toPostfix .standard expression = .ok stream ∧
      evaluate stream = .ok value ∧ value.isNan = false := by
  obtain ⟨value, hvalue⟩ := (success_outcomeOf_iff expression).mp h
  rw [valueOf_eq] at hvalue
  obtain ⟨stream, hstream, hvalue⟩ := bind_eq_ok_iff.mp hvalue
  obtain ⟨value', hvalue', hnumber⟩ := bind_eq_ok_iff.mp hvalue
  refine ⟨stream, value', mapError_eq_ok_iff.mp hstream, mapError_eq_ok_iff.mp hvalue', ?_⟩
  cases hnan : value'.isNan with
  | false => rfl
  | true => simp [hnan] at hnumber

theorem digitRuns_of_success {expression : String} (hmark : marker ∉ expression.toList)
    (h : (outcomeOf expression).success = true) :
    digitRuns expression.toList = (operatorPlaces expression.toList).length + 1 := by
  obtain ⟨stream, value, hstream, hvalue, hnumber⟩ := exists_of_success h
  rcases counts_of_evaluate_eq_ok hmark hstream hvalue with ⟨hruns, hplaces⟩ | ⟨-, hruns⟩
  · have hnan := evaluate_eq_nan hmark hstream hruns hplaces
    obtain rfl := Except.ok.inj (hvalue.symm.trans hnan)
    exact absurd hnumber (by decide)
  · exact hruns

/-- A text that succeeds is an expression unless it has one of three defects: an
operator without an operand directly on either side, an empty pair of parentheses, or
a character that no expression holds. -/
theorem wellFormed_iff_of_success {expression : String}
    (h : (outcomeOf expression).success = true) :
    WellFormed expression.toList ↔
      ¬HasDanglingOperator expression.toList ∧ ¬HasEmptyPair expression.toList ∧
        ¬HasForeign expression.toList := by
  refine ⟨not_defective_of_wellFormed, ?_⟩
  rintro ⟨hdangling, hpair, hforeign⟩
  have hmark : marker ∉ expression.toList :=
    fun hm ↦ hforeign ⟨marker, hm, isBlank_marker, rfl, rfl, rfl⟩
  have hcount : numbers (tokens expression.toList) = operators (tokens expression.toList) + 1 := by
    rw [← digitRuns_eq_numbers hforeign, ← length_operatorPlaces]
    exact digitRuns_of_success hmark h
  have hbalanced : Balanced (tokens expression.toList) := by
    obtain ⟨stream, value, hstream, -, -⟩ := exists_of_success h
    obtain ⟨chars, hchars, -⟩ := toPostfix_eq_ok_iff.mp hstream
    exact balanced_tokens hforeign hchars
  have hfit : FitBetween ' ' (tokens expression.toList) ' ' := by
    rw [FitBetween, ← edged_eq (spells_tokens _) fun _ ↦ proper_of_mem_tokens]
    exact isChain_edged_iff.mpr ⟨hdangling, hpair⟩
  obtain ⟨e, he⟩ := hbalanced.exists_phrase hcount rfl rfl hfit
  exact ⟨e, he ▸ spells_tokens expression.toList⟩

theorem wellFormed_of_success_group :
    (outcomeOf "(1+2)*3").success = true ∧ WellFormed "(1+2)*3".toList := by
  have hsuccess : (outcomeOf "(1+2)*3").success = true := by decide +kernel
  have hfits : (edged "(1+2)*3".toList).IsChain Fits := by decide
  have hforeign : ¬HasForeign "(1+2)*3".toList := by decide
  obtain ⟨hdangling, hpair⟩ := isChain_edged_iff.mp hfits
  exact ⟨hsuccess, (wellFormed_iff_of_success hsuccess).mpr ⟨hdangling, hpair, hforeign⟩⟩

/-- Each of the defects may go with success: an operator after both its operands, an empty
pair before a number, and a marker that stands in the text itself. -/
theorem success_and_not_wellFormed :
    ((outcomeOf "1 2+").success = true ∧ ¬WellFormed "1 2+".toList) ∧
      ((outcomeOf "()1").success = true ∧ ¬WellFormed "()1".toList) ∧
      ((outcomeOf "_1").success = true ∧ ¬WellFormed "_1".toList) := by
  have hdangling : HasDanglingOperator "1 2+".toList :=
    ⟨[' ', '1'], '2', '+', ' ', [], by decide, by decide, by decide⟩
  have hpair : HasEmptyPair "()1".toList := ⟨[' '], ['1', ' '], by decide⟩
  have hforeign : HasForeign "_1".toList := by decide
  refine ⟨⟨by decide +kernel, fun hwell ↦ ?_⟩, ⟨by decide +kernel, fun hwell ↦ ?_⟩,
    ⟨by decide +kernel, fun hwell ↦ ?_⟩⟩
  · exact (not_defective_of_wellFormed hwell).1 hdangling
  · exact (not_defective_of_wellFormed hwell).2.1 hpair
  · exact (not_defective_of_wellFormed hwell).2.2 hforeign

end Reckoner
