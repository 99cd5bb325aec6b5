import Reckoner.Proofs.Infix.Groups

/-!
# Texts inside longer texts

What stands around a group and what stands in it are converted independently.  Of the
text in front and the text behind it is known, before anything is put between them, what
they release or that no group can stand there at all: the group leaves what waits as it
was, so the text behind is read as if it stood directly after the one in front.  The
same holds of an operand after an operator, where under the standard table nothing is
left to wait but that operator.
-/

namespace Reckoner
namespace Infix

open Text

variable {t : OperatorTable} {x y inner chars : List Char}

/-- What `x` and `y` release before and after a group between them, if one can stand
there. -/
def surroundings (t : OperatorTable) (x y : List Char) :
    Except SyntaxError (List Char × List Char) :=
  emit t .empty (markChars x) >>= fun before ↦
    emit t before.2 (markChars y) >>= fun after ↦
      if after.2.items.any isParenthesis then .error .mismatchedParentheses
      else .ok (before.1, after.1 ++ after.2.items)

/-- A group adds what it is converted to by itself, and nothing else depends on it. -/
theorem convert_group_between (plain : t.Plain) (h : convert t inner = .ok chars) :
    convert t (x ++ '(' :: (inner ++ ')' :: y)) =
      (surroundings t x y).map fun around ↦ around.1 ++ chars ++ around.2 := by
  rw [convert, convertMarked_eq_emit, markChars_group, surroundings, emit_append]
  cases emit t .empty (markChars x) with
  | error e => rfl
  | ok before =>
      rw [ok_bind, ok_bind, emit_append, emit_group plain h, ok_bind]
      cases emit t before.2 (markChars y) with
      | error e => rfl
      | ok after =>
          rw [map_ok, map_ok, ok_bind, ok_bind]
          dsimp only
          cases after.2.items.any isParenthesis with
          | true => rfl
          | false => simp

/-- Under a plain table, either no group can stand between two texts, for a reason that
does not depend on the group, or it stands there with its own characters between those
of the two texts; and parentheses around a whole text make no difference. -/
theorem toPostfix_group {t : OperatorTable} (plain : t.Plain) :
    (∀ x y : String,
      (∃ e, ∀ inner chars, toPostfix t inner = .ok (String.ofList (spaced chars)) →
        toPostfix t (x ++ "(" ++ inner ++ ")" ++ y) = .error e) ∨
      (∃ before after, ∀ inner chars,
        toPostfix t inner = .ok (String.ofList (spaced chars)) →
          toPostfix t (x ++ "(" ++ inner ++ ")" ++ y) =
            .ok (String.ofList (spaced (before ++ chars ++ after))))) ∧
      ∀ inner stream, toPostfix t inner = .ok stream →
        toPostfix t ("(" ++ inner ++ ")") = .ok stream := by
  have htoList (x inner y : String) : (x ++ "(" ++ inner ++ ")" ++ y).toList =
      x.toList ++ '(' :: (inner.toList ++ ')' :: y.toList) := by simp
  constructor
  · intro x y
    cases hsurroundings : surroundings t x.toList y.toList with
    | error e =>
        refine .inl ⟨e, fun inner chars h ↦ ?_⟩
        have hinner := toPostfix_eq_ok_spaced_iff.mp h
        rw [toPostfix, htoList, convert_group_between plain hinner, hsurroundings]
        rfl
    | ok around =>
        refine .inr ⟨around.1, around.2, fun inner chars h ↦ ?_⟩
        have hinner := toPostfix_eq_ok_spaced_iff.mp h
        rw [toPostfix_eq_ok_spaced_iff, htoList, convert_group_between plain hinner,
          hsurroundings, map_ok]
  · intro inner stream h
    obtain ⟨chars, hinner, rfl⟩ := toPostfix_eq_ok_iff.mp h
    have hgroup := (selfContained_group plain hinner).convert_eq
    rw [toPostfix_eq_ok_spaced_iff, ← hgroup]
    simp

/-- A group as the base of a power in a longer group, and the same with the longer group
left open. -/
theorem toPostfix_group_power :
    OperatorTable.withPower.Plain ∧
      (∃ before after, ∀ inner chars,
        toPostfix .withPower inner = .ok (String.ofList (spaced chars)) →
          toPostfix .withPower ("2^(3*" ++ "(" ++ inner ++ ")" ++ "^4)") =
            .ok (String.ofList (spaced (before ++ chars ++ after)))) ∧
      (∃ e, ∀ inner chars,
        toPostfix .withPower inner = .ok (String.ofList (spaced chars)) →
          toPostfix .withPower ("2^(3*" ++ "(" ++ inner ++ ")" ++ "^4") = .error e) ∧
      toPostfix .withPower "(1 2^)" = .ok "_ 1 _ 2 ^" := by
  obtain ⟨hbetween, halone⟩ := toPostfix_group OperatorTable.plain_withPower
  -- the empty text tells which of the two happens, since it converts
  have hclosed : toPostfix .withPower ("2^(3*" ++ "(" ++ "" ++ ")" ++ "^4)") =
      .ok "_ 2 _ 3 _ 4 ^ * ^" := by decide
  have hopen : toPostfix .withPower ("2^(3*" ++ "(" ++ "" ++ ")" ++ "^4") =
      .error .mismatchedParentheses := by decide
  refine ⟨OperatorTable.plain_withPower, (hbetween "2^(3*" "^4)").resolve_left ?_,
    (hbetween "2^(3*" "^4").resolve_right ?_, halone "1 2^" "_ 1 _ 2 ^" (by decide)⟩
  · rintro ⟨e, he⟩
    exact error_ne_ok ((he "" [] (by decide)).symm.trans hclosed)
  · rintro ⟨before, after, h⟩
    exact error_ne_ok (hopen.symm.trans (h "" [] (by decide)))

/-- Under the standard table, one more operation on a text that converts, whatever the
text holds, comes last: after all of the text and after its right operand, which is a
number or a group. -/
theorem toPostfix_operation {x : String} {before : List Char}
    (hx : toPostfix .standard x = .ok (String.ofList (spaced before))) (op : Operation)
    {y : String}
    (hy : (y ≠ "" ∧ ∀ c ∈ y.toList, c.isDigit = true) ∨
      ∃ inner stream, toPostfix .standard inner = .ok stream ∧ y = "(" ++ inner ++ ")") :
    ∃ operand, toPostfix .standard y = .ok (String.ofList (spaced operand)) ∧
      toPostfix .standard (x ++ String.singleton op.symbol ++ y) =
        .ok (String.ofList (spaced (before ++ operand ++ [op.symbol]))) := by
  have hcontained : ∃ operand, SelfContained .standard y.toList operand := by
    rcases hy with ⟨hne, hdigits⟩ | ⟨inner, stream, hinner, rfl⟩
    · have hchars : y.toList ≠ [] := by simpa using hne
      exact ⟨_, selfContained_digits hchars hdigits⟩
    · obtain ⟨operand, hoperand, -⟩ := toPostfix_eq_ok_iff.mp hinner
      have hgroup := selfContained_group OperatorTable.plain_standard hoperand
      exact ⟨operand, by simpa using hgroup⟩
  obtain ⟨operand, hoperand⟩ := hcontained
  have hwhole := convert_operator (toPostfix_eq_ok_spaced_iff.mp hx) hoperand op
  refine ⟨operand, toPostfix_eq_ok_spaced_iff.mpr hoperand.convert_eq, ?_⟩
  rw [toPostfix_eq_ok_spaced_iff, ← hwhole]
  simp

/-- The text in front has an operator too many on its left and one that waits for its
right operand. -/
theorem toPostfix_operation_unfinished :
    toPostfix .standard "+1 2*" = .ok "_ 1 _ 2 + *" ∧
      toPostfix .standard "+1 2*/034" = .ok "_ 1 _ 2 + * _ 0 3 4 /" ∧
      toPostfix .standard "+1 2*-(3-)" = .ok "_ 1 _ 2 + * _ 3 - -" := by
  have hx : toPostfix .standard "+1 2*" =
      .ok (String.ofList (spaced ['_', '1', '_', '2', '+', '*'])) := by decide
  have hdigits : ∀ c ∈ "034".toList, c.isDigit = true := List.all_eq_true.mp (by decide)
  obtain ⟨number, hnumber, hquotient⟩ :=
    toPostfix_operation hx .divide (y := "034") (.inl ⟨by decide, hdigits⟩)
  obtain ⟨group, hgroup, hdifference⟩ :=
    toPostfix_operation hx .subtract (y := "(3-)") (.inr ⟨"3-", "_ 3 -", by decide⟩)
  have hthirtyFour : toPostfix .standard "034" =
      .ok (String.ofList (spaced ['_', '0', '3', '4'])) := by decide
  have hthree : toPostfix .standard "(3-)" =
      .ok (String.ofList (spaced ['_', '3', '-'])) := by decide
  obtain rfl := spaced_injective (String.ofList_injective
    (Except.ok.inj (hnumber.symm.trans hthirtyFour)))
  obtain rfl := spaced_injective (String.ofList_injective
    (Except.ok.inj (hgroup.symm.trans hthree)))
  exact ⟨hx, hquotient, hdifference⟩

end Infix
end Reckoner
