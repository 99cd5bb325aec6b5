import Mathlib.Data.List.Chain
import Reckoner.Proofs.Infix.Levels
import Reckoner.Proofs.Infix.Moves

/-!
# The order of what waits

An operator is pushed only after it has released all that yields to it.  So of two
operators that wait next to each other the upper one binds more tightly, or as tightly
and it groups to the right.  Pushing an opening parenthesis and taking entries off the
top keep this order, and together they do all that a scan does to its stack.

Under the standard table no operator may wait on another one, which leaves at most one
for each group.
-/

namespace Reckoner

theorem Fixity.yieldsTo_eq_false_iff (waiting new : Fixity) :
    waiting.yieldsTo new = false ↔
      waiting.precedence < new.precedence ∨
        waiting.precedence = new.precedence ∧ new.associativity = .right := by
  rw [← Bool.not_eq_true, yieldsTo_eq_true_iff]
  cases new.associativity with
  | left =>
      simp only [reduceCtorEq, and_true, and_false, or_false]
      omega
  | right =>
      simp only [reduceCtorEq, and_true, and_false, or_false]
      omega

namespace Infix

open Text

/-- Whether `upper` may wait directly on `lower`.  Only operators are compared: the upper
one binds more tightly, or as tightly and it groups to the right. -/
def MayRestOn (t : OperatorTable) (upper lower : Char) : Prop :=
  ∀ f ∈ t upper, ∀ g ∈ t lower,
    g.precedence < f.precedence ∨ g.precedence = f.precedence ∧ f.associativity = .right

/-- What waits once `read` has been read, the top first. -/
structure Stacked (t : OperatorTable) (read pending : List Char) : Prop where
  waiting : Waiting t pending
  closing_notMem : ')' ∉ pending
  count_opening : pending.count '(' = unclosed read
  /-- No group was closed that had not been opened. -/
  count_closing : pending.count '(' + read.count ')' = read.count '('
  isChain : pending.IsChain (MayRestOn t)

variable {t : OperatorTable} {read p q a above : List Char} {c upper lower : Char} {f : Fixity}

/-! ## Two entries -/

theorem mayRestOn_of_eq_none (h : t upper = none) (lower : Char) : MayRestOn t upper lower := by
  intro f hf
  rw [h] at hf
  cases hf

/-- What an operator does not release is what it may rest on. -/
theorem mayRestOn_iff_releases_eq_false (hf : t upper = some f) :
    MayRestOn t upper lower ↔ t.releases f lower = false := by
  unfold MayRestOn OperatorTable.releases
  cases t lower with
  | none => simp
  | some g => simp [hf, Fixity.yieldsTo_eq_false_iff]

theorem not_mayRestOn_standard (hupper : OperatorTable.standard.contains upper = true)
    (hlower : OperatorTable.standard.contains lower = true) :
    ¬MayRestOn .standard upper lower := by
  obtain ⟨f, hf⟩ := Option.isSome_iff_exists.mp hupper
  obtain ⟨g, hg⟩ := Option.isSome_iff_exists.mp hlower
  obtain rfl := standard_eq_leftToRight hf
  obtain rfl := standard_eq_leftToRight hg
  intro h
  rcases h _ hf _ hg with hless | ⟨-, hright⟩
  · exact absurd hless (Int.lt_irrefl _)
  · cases hright

/-! ## One character -/

theorem Waiting.closing_notMem (plain : t.Plain) (h : Waiting t p) : ')' ∉ p :=
  fun hmem ↦ absurd (h.eq_opening plain hmem rfl) (by decide)

theorem Move.opening_mem_of_closing (plain : t.Plain) (h : Move t p ')' a q) : '(' ∈ p := by
  cases h with
  | blank hblank => cases hblank
  | operand hoperand => cases hoperand
  | operator hc =>
      rw [OperatorTable.Plain.eq_none plain rfl] at hc
      cases hc
  | closing => exact List.mem_append_right _ List.mem_cons_self

theorem Move.count_closing (plain : t.Plain) (h : Move t p c a q) :
    q.count '(' + [c].count ')' = p.count '(' + [c].count '(' := by
  rw [h.count_opening plain, nesting]
  by_cases hopening : c = '('
  · subst hopening
    rfl
  · rw [if_neg hopening]
    by_cases hclosing : c = ')'
    · subst hclosing
      have hpos := List.count_pos_iff.mpr (h.opening_mem_of_closing plain)
      exact Nat.sub_add_cancel hpos
    · simp [hopening, hclosing]

theorem Move.isChain (plain : t.Plain) (h : Move t p c a q) (hp : p.IsChain (MayRestOn t)) :
    q.IsChain (MayRestOn t) := by
  cases h with
  | blank => exact hp
  | operand => exact hp
  | operator hc _ hbelow =>
      refine List.isChain_cons.mpr ⟨fun d hd ↦ ?_, hp.right_of_append⟩
      exact (mayRestOn_iff_releases_eq_false hc).mpr (hbelow d hd)
  | opening =>
      have hnone : t '(' = none := OperatorTable.Plain.eq_none plain rfl
      exact List.isChain_cons.mpr ⟨fun d _ ↦ mayRestOn_of_eq_none hnone d, hp⟩
  | closing => exact hp.right_of_append.tail

theorem Move.stacked (plain : t.Plain) (h : Move t p c a q) (hp : Stacked t read p) :
    Stacked t (read ++ [c]) q where
  waiting := h.waiting hp.waiting
  closing_notMem := (h.waiting hp.waiting).closing_notMem plain
  count_opening := by
    rw [h.count_opening plain, hp.count_opening, unclosed_append_singleton]
  count_closing := by
    have hcount := h.count_closing plain
    have hread := hp.count_closing
    rw [List.count_append, List.count_append]
    omega
  isChain := h.isChain plain hp.isChain

/-! ## Runs -/

namespace Stacked

/-- Entries that are taken off while a character or the end is handled. -/
theorem of_append (h : Stacked t read (above ++ p)) (hopening : '(' ∉ above) :
    Stacked t read p where
  waiting c hc := h.waiting c (List.mem_append_right above hc)
  closing_notMem hmem := h.closing_notMem (List.mem_append_right above hmem)
  count_opening := by
    have hcount := h.count_opening
    rwa [List.count_append, List.count_eq_zero.mpr hopening, Nat.zero_add] at hcount
  count_closing := by
    have hcount := h.count_closing
    rwa [List.count_append, List.count_eq_zero.mpr hopening, Nat.zero_add] at hcount
  isChain := h.isChain.right_of_append

theorem of_run (plain : t.Plain) {s : Scan} (h : Scan.start.run t read = .ok s) :
    Stacked t read s.pending.items := by
  induction read using List.reverseRecOn generalizing s with
  | nil =>
      obtain rfl := Except.ok.inj h
      exact ⟨nofun, List.not_mem_nil, rfl, rfl, .nil⟩
  | append_singleton read c ih =>
      rw [Scan.run_append] at h
      obtain ⟨before, hread, h⟩ := bind_eq_ok_iff.mp h
      rw [Scan.run_cons] at h
      obtain ⟨after, hstep, h⟩ := bind_eq_ok_iff.mp h
      obtain rfl := Except.ok.inj h
      obtain ⟨⟨a, q⟩, hrespond, rfl⟩ := map_eq_ok_iff.mp hstep
      exact (move_of_respond plain hrespond).stacked plain (ih hread)

/-- Under the standard table nothing but one operator waits between two opening
parentheses, on the last one or below the first. -/
theorem length_le_one (h : Stacked .standard read p) {w : List Char} (hw : w <:+: p)
    (hopening : '(' ∉ w) : w.length ≤ 1 := by
  have hoperator : ∀ c ∈ w, OperatorTable.standard.contains c = true := fun c hc ↦
    (h.waiting c (hw.subset hc)).resolve_left fun heq ↦ hopening (heq ▸ hc)
  have hchain := h.isChain.infix hw
  match w with
  | [] => exact Nat.zero_le 1
  | [_] => exact Nat.le_refl 1
  | upper :: lower :: _ =>
      have hrest := (List.isChain_cons_cons.mp hchain).1
      refine absurd hrest (not_mayRestOn_standard (hoperator upper ?_) (hoperator lower ?_))
      · exact List.mem_cons_self
      · exact List.mem_cons_of_mem _ List.mem_cons_self

end Stacked

/-- Wherever a scan has come to without an error, what waits is in order, and it stays so
while entries up to an opening parenthesis are taken off one by one. -/
theorem stacked_of_run (plain : t.Plain) {text : String} {n : Nat} {s : Scan}
    (h : Scan.start.run t ((mark text).toList.take n) = .ok s) :
    Stacked t ((mark text).toList.take n) s.pending.items ∧
      (∀ taken left, s.pending.items = taken ++ left → '(' ∉ taken →
        Stacked t ((mark text).toList.take n) left) ∧
      (t = .standard → ∀ w, w <:+: s.pending.items → '(' ∉ w → w.length ≤ 1) := by
  have hstacked := Stacked.of_run plain h
  refine ⟨hstacked, fun taken left hitems htaken ↦ ?_, ?_⟩
  · exact (hitems ▸ hstacked).of_append htaken
  · rintro rfl w hw hopening
    exact hstacked.length_le_one hw hopening

/-- A power waits on a power and on a sum, and a product takes the place of a difference. -/
theorem stacked_of_run_power :
    OperatorTable.withPower.Plain ∧
      Scan.start.run .withPower ((mark "2+3^4^(5-6*7)").toList.take 18) =
        .ok ⟨"_2_3_4_5_6-_7".toList.toArray, ⟨['*', '(', '^', '^', '+']⟩⟩ ∧
      Stacked .withPower "_2+_3^_4^(_5-_6*_7".toList ['*', '(', '^', '^', '+'] ∧
      Stacked .withPower "_2+_3^_4^(_5-_6*_7".toList ['(', '^', '^', '+'] ∧
      Scan.start.run .standard ((mark "2+3*(4-(5*6").toList.take 16) =
        .ok ⟨"_2_3+_4_5_6".toList.toArray, ⟨['*', '(', '-', '(', '*']⟩⟩ ∧
      ∀ w, w <:+: ['*', '(', '-', '(', '*'] → '(' ∉ w → w.length ≤ 1 := by
  have hpower : Scan.start.run .withPower ((mark "2+3^4^(5-6*7)").toList.take 18) =
      .ok ⟨"_2_3_4_5_6-_7".toList.toArray, ⟨['*', '(', '^', '^', '+']⟩⟩ := by decide +kernel
  have hstandard : Scan.start.run .standard ((mark "2+3*(4-(5*6").toList.take 16) =
      .ok ⟨"_2_3+_4_5_6".toList.toArray, ⟨['*', '(', '-', '(', '*']⟩⟩ := by decide +kernel
  obtain ⟨hstacked, hleft, -⟩ := stacked_of_run OperatorTable.plain_withPower hpower
  obtain ⟨-, -, hgroups⟩ := stacked_of_run OperatorTable.plain_standard hstandard
  exact ⟨OperatorTable.plain_withPower, hpower, hstacked, hleft ['*'] _ rfl (by decide), hstandard,
    hgroups rfl⟩

end Infix
end Reckoner
