import Reckoner.Proofs.Infix.Responses

/-!
# What waits during a conversion

Under a plain table a character does one of five things to what waits, or it is refused:
for what it is, or because it closes a group that was not opened.  So nothing waits but
operators of the table and opening parentheses, and as many of these as the text read
so far has left unclosed, whatever operators have come and gone around them.
-/

namespace Reckoner
namespace Infix

open Text

/-- What waits before a character, what the character releases, and what waits then, the
entry to leave first in front. -/
inductive Move (t : OperatorTable) : List Char → Char → List Char → List Char → Prop
  | blank {p : List Char} {c : Char} (h : isBlank c = true) : Move t p c [] p
  | operand {p : List Char} {c : Char} (h : isOperandChar c = true) : Move t p c [c] p
  | operator {above below : List Char} {c : Char} {f : Fixity} (hc : t c = some f)
      (habove : ∀ d ∈ above, t.releases f d = true)
      (hbelow : ∀ d ∈ below.head?, t.releases f d = false) :
      Move t (above ++ below) c above (c :: below)
  | opening {p : List Char} : Move t p '(' [] ('(' :: p)
  | closing {above below : List Char} (h : '(' ∉ above) :
      Move t (above ++ '(' :: below) ')' above below

/-- How many groups are open after a character, `depth` of them before it. -/
def nesting (depth : Nat) (c : Char) : Nat :=
  if c = '(' then depth + 1 else if c = ')' then depth - 1 else depth

/-- How many opening parentheses of a text are not closed in it; a closing one closes the
last that is open, if any is. -/
def unclosed (text : List Char) : Nat :=
  text.foldl nesting 0

/-- Nothing waits but operators and opening parentheses. -/
def Waiting (t : OperatorTable) (p : List Char) : Prop :=
  ∀ c ∈ p, c = '(' ∨ t.contains c = true

variable {t : OperatorTable} {p q a : List Char} {c : Char}

/-! ## One character -/

theorem releases_eq_false_of_eq_none (h : t c = none) (f : Fixity) : t.releases f c = false := by
  rw [OperatorTable.releases, h]

/-- The operators that leave before a new one, and the entries that stay. -/
theorem exists_split_releases (t : OperatorTable) (f : Fixity) (p : List Char) :
    ∃ above below, p = above ++ below ∧ (∀ d ∈ above, t.releases f d = true) ∧
      ∀ d ∈ below.head?, t.releases f d = false := by
  refine ⟨p.takeWhile (t.releases f), p.dropWhile (t.releases f),
    List.takeWhile_append_dropWhile.symm, fun d hd ↦ ?_, fun d hd ↦ ?_⟩
  · exact List.mem_takeWhile_imp hd
  · have hstop := List.head?_dropWhile_not (t.releases f) p
    rw [Option.mem_def.mp hd] at hstop
    exact hstop

/-- Either a character moves on, or it is unknown, or it closes a group where none is
open. -/
theorem respond_cases (plain : t.Plain) (p : List Char) (c : Char) :
    (∃ a q, respond t ⟨p⟩ c = .ok (a, ⟨q⟩) ∧ Move t p c a q) ∨
      Unknown t c ∧ respond t ⟨p⟩ c = .error (.unknownToken c) ∨
      (c = ')' ∧ '(' ∉ p) ∧ respond t ⟨p⟩ c = .error .mismatchedParentheses := by
  cases hblank : isBlank c with
  | true => exact .inl ⟨[], p, respond_blank hblank, .blank hblank⟩
  | false =>
      cases hoperand : isOperandChar c with
      | true => exact .inl ⟨[c], p, respond_operand hblank hoperand, .operand hoperand⟩
      | false =>
          cases hc : t c with
          | some f =>
              obtain ⟨above, below, rfl, habove, hbelow⟩ := exists_split_releases t f p
              exact .inl ⟨above, c :: below, respond_operator plain hc habove hbelow,
                .operator hc habove hbelow⟩
          | none =>
              cases hparen : isParenthesis c with
              | false =>
                  exact .inr (.inl ⟨⟨hblank, hoperand, hc, hparen⟩,
                    respond_eq_error hblank hoperand hc hparen⟩)
              | true =>
                  rcases isParenthesis_eq_true_iff.mp hparen with rfl | rfl
                  · exact .inl ⟨[], '(' :: p, respond_opening plain, .opening⟩
                  · rw [respond_closing plain]
                    by_cases hmem : '(' ∈ p
                    · obtain ⟨above, below, rfl, habove⟩ := List.eq_append_cons_of_mem hmem
                      exact .inl ⟨above, below, closeGroup_of_notMem habove, .closing habove⟩
                    · exact .inr (.inr ⟨⟨rfl, hmem⟩, closeGroup_eq_error_of_notMem hmem⟩)

theorem move_of_respond (plain : t.Plain) (h : respond t ⟨p⟩ c = .ok (a, ⟨q⟩)) :
    Move t p c a q := by
  rcases respond_cases plain p c with ⟨b, r, hc, hmove⟩ | ⟨-, hc⟩ | ⟨-, hc⟩
  · obtain ⟨rfl, hr⟩ := parts_eq hc h
    obtain rfl := Stack.mk.inj hr
    exact hmove
  · exact absurd (hc.symm.trans h) error_ne_ok
  · exact absurd (hc.symm.trans h) error_ne_ok

theorem Move.respond_eq (plain : t.Plain) (h : Move t p c a q) :
    respond t ⟨p⟩ c = .ok (a, ⟨q⟩) := by
  cases h with
  | blank hblank => exact respond_blank hblank
  | operand hoperand =>
      exact respond_operand (isBlank_eq_false_of_isOperandChar hoperand) hoperand
  | operator hc habove hbelow => exact respond_operator plain hc habove hbelow
  | opening => exact respond_opening plain
  | closing hnotMem =>
      rw [respond_closing plain]
      exact closeGroup_of_notMem hnotMem

/-- No move takes an opening parenthesis away but the one that closes it, so what lies
below one makes no difference. -/
theorem Move.above (plain : t.Plain) (h : Move t p c a q) (below : List Char) :
    Move t (p ++ '(' :: below) c a (q ++ '(' :: below) := by
  cases h with
  | blank hblank => exact .blank hblank
  | operand hoperand => exact .operand hoperand
  | @operator above rest c f hc habove hrest =>
      have hhead : ∀ d ∈ (rest ++ '(' :: below).head?, t.releases f d = false := by
        cases rest with
        | nil => simpa using OperatorTable.Plain.releases_eq_false plain f rfl
        | cons d rest => exact hrest
      rw [List.append_assoc]
      exact .operator hc habove hhead
  | opening => exact .opening
  | closing hnotMem =>
      rw [List.append_assoc]
      exact .closing hnotMem

/-- A parenthesis that waits is an opening one. -/
theorem Waiting.eq_opening (plain : t.Plain) (h : Waiting t p) (hc : c ∈ p)
    (hparen : isParenthesis c = true) : c = '(' := by
  rcases h c hc with heq | hoperator
  · exact heq
  · rw [OperatorTable.contains, OperatorTable.Plain.eq_none plain hparen] at hoperator
    exact absurd hoperator Bool.noConfusion

theorem Move.waiting (h : Move t p c a q) (hp : Waiting t p) : Waiting t q := by
  cases h with
  | blank _ => exact hp
  | operand _ => exact hp
  | @operator above below c f hc _ _ =>
      refine List.forall_mem_cons.mpr ⟨.inr ?_, fun d hd ↦ hp d (List.mem_append_right _ hd)⟩
      rw [OperatorTable.contains, hc, Option.isSome_some]
  | opening => exact List.forall_mem_cons.mpr ⟨.inl rfl, hp⟩
  | closing _ => exact fun d hd ↦ hp d (List.mem_append_right _ (List.mem_cons_of_mem _ hd))

theorem nesting_eq_self (hc : isParenthesis c = false) (depth : Nat) :
    nesting depth c = depth := by
  have hne : c ≠ '(' ∧ c ≠ ')' := by simpa [isParenthesis] using hc
  rw [nesting, if_neg hne.1, if_neg hne.2]

theorem isParenthesis_eq_false_of_isOperandChar (h : isOperandChar c = true) :
    isParenthesis c = false :=
  isParenthesis_eq_false_of h rfl rfl

/-- The open parentheses are among what waits. -/
theorem Move.count_opening (plain : t.Plain) (h : Move t p c a q) :
    q.count '(' = nesting (p.count '(') c := by
  cases h with
  | blank hblank => rw [nesting_eq_self (isParenthesis_eq_false_of_isBlank hblank)]
  | operand hoperand => rw [nesting_eq_self (isParenthesis_eq_false_of_isOperandChar hoperand)]
  | @operator _ below c f hc habove _ =>
      have hparen := (plain c f hc).2.2
      have hne : c ≠ '(' := fun h ↦ Bool.false_ne_true (hparen.symm.trans (h ▸ rfl))
      have hnotMem : '(' ∉ a := fun hmem ↦ by
        have hstays := OperatorTable.Plain.releases_eq_false plain f (c := '(') rfl
        exact Bool.false_ne_true (hstays.symm.trans (habove '(' hmem))
      rw [nesting_eq_self hparen, List.count_append, List.count_eq_zero.mpr hnotMem,
        List.count_cons_of_ne hne, Nat.zero_add]
  | opening => rw [List.count_cons_self, nesting, if_pos rfl]
  | closing hnotMem =>
      rw [List.count_append, List.count_eq_zero.mpr hnotMem, List.count_cons_self, Nat.zero_add]
      rfl

/-! ## Marked texts -/

/-- A marker goes straight to the output, so a character acts as if it had none. -/
theorem emit_markAfter_singleton (p : Stack Char) (before c : Char) :
    emit t p (markAfter before [c]) =
      (respond t p c).map fun now ↦
        ((if beginsWord before c then [marker] else []) ++ now.1, now.2) := by
  have hone : emit t p [c] = respond t p c := by
    rw [emit_cons]
    cases respond t p c <;> simp
  rw [markAfter_cons, markAfter_nil, List.append_nil]
  cases beginsWord before c with
  | false =>
      rw [if_neg Bool.false_ne_true, hone]
      cases respond t p c <;> rfl
  | true =>
      rw [if_pos rfl, emit_cons, respond_marker, ok_bind, hone]
      rfl

theorem markChars_append (x y : List Char) :
    markChars (x ++ y) = markChars x ++ markAfter (x.getLastD ' ') y :=
  markAfter_append ' ' x y

theorem unclosed_append_singleton (x : List Char) (c : Char) :
    unclosed (x ++ [c]) = nesting (unclosed x) c :=
  List.foldl_concat nesting 0 c x

end Infix
end Reckoner
