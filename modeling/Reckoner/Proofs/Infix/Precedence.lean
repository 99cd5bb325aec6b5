import Reckoner.Proofs.Infix.Written

/-!
# Conversion to postorder

Under every plain table, a legibly written tree is converted to its postorder.  When the
tokens of a written tree have been read, the operators of its open right spine still
wait, the innermost on top, and the rest of the postorder has been released.  The
operators that may release anything from before the tree are those of its open left
spine; legibility keeps them from doing so.
-/

namespace Reckoner
namespace Infix

open Text

theorem BareLeft.trans {f g k : Fixity} (hkg : BareLeft k g) (hgf : BareLeft g f) :
    BareLeft k f := by
  rcases hkg with hkg | ⟨hkg, -⟩
  · rcases hgf with hgf | ⟨hgf, -⟩
    · exact .inl (Int.lt_trans hgf hkg)
    · exact .inl (hgf ▸ hkg)
  · rw [BareLeft, hkg]
    exact hgf

namespace Written

/-- The operators of the open left spine. -/
def leading : Written → List Char
  | binary op left _ => op :: left.leading
  | _ => []

/-- The operators of the open right spine, the innermost first. -/
def late : Written → List Char
  | binary op _ right => right.late ++ [op]
  | _ => []

/-- The postorder up to the open right spine. -/
def early : Written → List Char
  | number n => marker :: n.digits
  | binary _ left right => left.early ++ left.late ++ right.early
  | group e => e.early ++ e.late

theorem postorder_tree (e : Written) : e.tree.postorder = e.early ++ e.late := by
  induction e with
  | number n => simp [tree, Tree.postorder, early, late]
  | binary op left right ihleft ihright =>
      simp [tree, Tree.postorder, early, late, ihleft, ihright]
  | group e ih => simpa [tree, early, late] using ih

variable {t : OperatorTable} {e : Written}

theorem leading_eq_nil (h : e.root? = none) : e.leading = [] := by
  cases e with
  | number n => rfl
  | binary op left right => simp [root?] at h
  | group e => rfl

theorem late_eq_nil (h : e.root? = none) : e.late = [] := by
  cases e with
  | number n => rfl
  | binary op left right => simp [root?] at h
  | group e => rfl

theorem Legible.exists_fixity (h : e.Legible t) {op : Char} (hop : e.root? = some op) :
    ∃ f, t op = some f := by
  cases h with
  | number n => simp [root?] at hop
  | group he => simp [root?] at hop
  | binary hf hl hr hbl hbr =>
      obtain rfl := Option.some.inj hop
      exact ⟨_, hf⟩

/-- Nothing on the right spine binds less tightly than the root. -/
theorem Legible.le_precedence_of_mem_late (h : e.Legible t) {op c : Char} {f : Fixity}
    (hop : e.root? = some op) (hf : t op = some f) (hc : c ∈ e.late) :
    ∃ g, t c = some g ∧ f.precedence ≤ g.precedence := by
  induction h generalizing op f with
  | number n => simp [late] at hc
  | group he ih => simp [late] at hc
  | @binary o fo left right ho hl hr hbl hbr ihl ihr =>
      obtain rfl := Option.some.inj hop
      rw [late, List.mem_append, List.mem_singleton] at hc
      rcases hc with hc | rfl
      · cases hroot : right.root? with
        | none => simp [late_eq_nil hroot] at hc
        | some q =>
            obtain ⟨g, hg⟩ := hr.exists_fixity hroot
            obtain ⟨k, hk, hle⟩ := ihr hroot hg hc
            have hbare := hbr q g hroot hg
            obtain rfl := Option.some.inj (ho.symm.trans hf)
            unfold BareRight at hbare
            exact ⟨k, hk, by omega⟩
      · exact ⟨f, hf, Int.le_refl _⟩

/-- Below the root, the left spine binds more tightly than the root, or as tightly
under a root that groups to the left. -/
theorem Legible.fixity_of_mem_leading (h : e.Legible t) {op c : Char} {f : Fixity}
    (hop : e.root? = some op) (hf : t op = some f) (hc : c ∈ e.leading) :
    ∃ g, t c = some g ∧ (g = f ∨ BareLeft g f) := by
  induction h generalizing op f with
  | number n => simp [leading] at hc
  | group he ih => simp [leading] at hc
  | @binary o fo left right ho hl hr hbl hbr ihl ihr =>
      obtain rfl := Option.some.inj hop
      obtain rfl := Option.some.inj (ho.symm.trans hf)
      rw [leading, List.mem_cons] at hc
      rcases hc with rfl | hc
      · exact ⟨_, ho, .inl rfl⟩
      · cases hroot : left.root? with
        | none => simp [leading_eq_nil hroot] at hc
        | some q =>
            obtain ⟨g, hg⟩ := hl.exists_fixity hroot
            obtain ⟨k, hk, hkg⟩ := ihl hroot hg hc
            have hbare := hbl q g hroot hg
            refine ⟨k, hk, .inr ?_⟩
            rcases hkg with rfl | hkg
            · exact hbare
            · exact hkg.trans hbare

/-! ## Which operators leave -/

/-- All that waits for a left operand yields to the operator after it. -/
theorem releases_late_left {f : Fixity} {left : Written}
    (hl : left.Legible t)
    (hbare : ∀ p g, left.root? = some p → t p = some g → BareLeft g f) :
    ∀ d ∈ left.late, t.releases f d = true := by
  intro d hd
  cases hroot : left.root? with
  | none => simp [late_eq_nil hroot] at hd
  | some q =>
      obtain ⟨g, hg⟩ := hl.exists_fixity hroot
      obtain ⟨k, hk, hle⟩ := hl.le_precedence_of_mem_late hroot hg hd
      have hfg := hbare q g hroot hg
      rw [OperatorTable.releases, hk, Fixity.yieldsTo_eq_true_iff]
      unfold BareLeft at hfg
      rcases hfg with hlt | ⟨heq, hassoc⟩
      · exact .inl (by omega)
      · rcases Int.lt_or_eq_of_le hle with hlt | hkg
        · exact .inl (by omega)
        · exact .inr ⟨by omega, hassoc⟩

/-- No operator in front of a right operand yields to one of its left spine. -/
theorem not_releases_of_mem_leading {op : Char} {f : Fixity} {right : Written}
    (hop : t op = some f) (hr : right.Legible t)
    (hbare : ∀ p g, right.root? = some p → t p = some g → BareRight g f)
    {d : Char} (hd : d ∈ right.leading) {k : Fixity} (hk : t d = some k) :
    t.releases k op = false := by
  cases hroot : right.root? with
  | none => simp [leading_eq_nil hroot] at hd
  | some q =>
      obtain ⟨g, hg⟩ := hr.exists_fixity hroot
      obtain ⟨k', hk', hkg⟩ := hr.fixity_of_mem_leading hroot hg hd
      obtain rfl := Option.some.inj (hk'.symm.trans hk)
      have hgf := hbare q g hroot hg
      rw [OperatorTable.releases, hop, ← Bool.not_eq_true, Fixity.yieldsTo_eq_true_iff]
      unfold BareRight at hgf
      rcases hkg with rfl | hkg
      · rcases hgf with hlt | ⟨heq, hassoc⟩
        · omega
        · rw [hassoc]
          simp only [reduceCtorEq, and_false, or_false]
          omega
      · -- Equal precedence all the way would make `q` group to both sides.
        unfold BareLeft at hkg
        rcases hkg with hlt | ⟨heq, hleft⟩
        · omega
        · rcases hgf with hlt | ⟨hgf, hright⟩
          · omega
          · rw [hright] at hleft
            exact absurd hleft (by decide)

/-! ## Reading a written tree -/

theorem Legible.not_isParenthesis_of_mem_late (plain : t.Plain) (h : e.Legible t) :
    ∀ c ∈ e.late, isParenthesis c = false := by
  intro c hc
  cases hroot : e.root? with
  | none => simp [late_eq_nil hroot] at hc
  | some op =>
      obtain ⟨f, hf⟩ := h.exists_fixity hroot
      obtain ⟨g, hg, -⟩ := h.le_precedence_of_mem_late hroot hf hc
      exact (plain c g hg).2.2

/-- The tokens of a written tree release the first part of its postorder and leave the
rest waiting above what waited before. -/
theorem Legible.emit_tokens (plain : t.Plain) (h : e.Legible t) (p : List Char)
    (hp : ∀ d ∈ e.leading, ∀ k, t d = some k → ∀ c ∈ p.head?, t.releases k c = false) :
    emit t ⟨p⟩ (e.tokens.flatMap Token.marked) = .ok (e.early, ⟨e.late ++ p⟩) := by
  induction h generalizing p with
  | number n =>
      simpa [tokens, Token.marked, early, late] using
        emit_operand (t := t) (p := ⟨p⟩) n.isDigit_of_mem
  | @group e he ih =>
      have hstay : ∀ d ∈ e.leading, ∀ k, t d = some k →
          ∀ c ∈ ('(' :: p).head?, t.releases k c = false := by
        intro d _ k _ c hc
        obtain rfl : '(' = c := by simpa using hc
        exact OperatorTable.Plain.releases_eq_false plain k rfl
      have hinner := ih ('(' :: p) hstay
      have hnotMem : '(' ∉ e.late := fun hmem ↦
        absurd (he.not_isParenthesis_of_mem_late plain _ hmem) (by decide)
      have hclose : emit t ⟨e.late ++ '(' :: p⟩ [')'] = .ok (e.late, ⟨p⟩) := by
        have hrespond := respond_closing (p := ⟨e.late ++ '(' :: p⟩) plain
        rw [closeGroup_of_notMem hnotMem] at hrespond
        simpa using emit_cons_of_ok hrespond emit_nil
      have hbody := emit_append_of_ok hinner hclose
      simpa [tokens, Token.marked, early, late] using
        emit_cons_of_ok (respond_opening plain) hbody
  | @binary op f left right hop hl hr hbl hbr ihl ihr =>
      have hstayLeft : ∀ d ∈ left.leading, ∀ k, t d = some k →
          ∀ c ∈ p.head?, t.releases k c = false :=
        fun d hd ↦ hp d (List.mem_cons_of_mem op hd)
      have hleft := ihl p hstayLeft
      have hop' := respond_operator plain hop (releases_late_left hl hbl)
        (hp op List.mem_cons_self f hop)
      have hstayRight : ∀ d ∈ right.leading, ∀ k, t d = some k →
          ∀ c ∈ (op :: p).head?, t.releases k c = false := by
        intro d hd k hk c hc
        obtain rfl : op = c := by simpa using hc
        exact not_releases_of_mem_leading hop hr hbr hd hk
      have hright := ihr (op :: p) hstayRight
      have hall := emit_append_of_ok hleft (emit_cons_of_ok hop' hright)
      simpa [tokens, Token.marked, early, late] using hall

theorem Legible.proper_of_mem_tokens (plain : t.Plain) (h : e.Legible t) :
    ∀ tok ∈ e.tokens, tok.Proper := by
  have hopening : (Token.sign '(').Proper := ⟨rfl, rfl⟩
  have hclosing : (Token.sign ')').Proper := ⟨rfl, rfl⟩
  induction h with
  | number n =>
      intro tok htok
      obtain rfl := List.mem_singleton.mp htok
      exact ⟨n.digits_ne_nil, fun c hc ↦ isWord_of_isDigit (n.isDigit_of_mem c hc)⟩
  | group he ih =>
      intro tok htok
      simp only [tokens, List.cons_append, List.mem_cons, List.mem_append,
        List.not_mem_nil, or_false] at htok
      rcases htok with rfl | htok | rfl
      · exact hopening
      · exact ih tok htok
      · exact hclosing
  | @binary op f left right hop hl hr hbl hbr ihl ihr =>
      intro tok htok
      rw [tokens, List.mem_append, List.mem_cons] at htok
      rcases htok with htok | rfl | htok
      · exact ihl tok htok
      · exact ⟨(plain op f hop).1, (plain op f hop).2.1⟩
      · exact ihr tok htok

theorem isChain_apart_tokens (e : Written) : e.tokens.IsChain Token.Apart := by
  induction e with
  | number n => exact .singleton _
  | group e ih =>
      have hend : (e.tokens ++ [Token.sign ')']).IsChain Token.Apart := by
        refine ih.append (.singleton _) ?_
        intro a _ b hb
        obtain rfl : Token.sign ')' = b := by simpa using hb
        exact Token.apart_sign_right a ')'
      exact hend.cons fun b _ ↦ Token.apart_sign_left '(' b
  | binary op left right ihl ihr =>
      have hright : (.sign op :: right.tokens).IsChain Token.Apart :=
        ihr.cons fun b _ ↦ Token.apart_sign_left op b
      refine ihl.append hright ?_
      intro a _ b hb
      obtain rfl : Token.sign op = b := by simpa using hb
      exact Token.apart_sign_right a op

theorem Legible.tokens_eq (plain : t.Plain) (h : e.Legible t) {text : List Char}
    (hs : Spells e.tokens text) : Infix.tokens text = e.tokens :=
  tokens_eq_of_spells hs (h.proper_of_mem_tokens plain) e.isChain_apart_tokens

theorem Legible.convert_eq (plain : t.Plain) (h : e.Legible t) {text : List Char}
    (hs : Spells e.tokens text) : convert t text = .ok e.tree.postorder := by
  have hemit := h.emit_tokens plain [] (by simp)
  have hparen : e.late.any isParenthesis = false := by
    rw [List.any_eq_false]
    intro c hc
    simpa using h.not_isParenthesis_of_mem_late plain c hc
  rw [convert_eq_convertMarked_tokens, h.tokens_eq plain hs, postorder_tree,
    convertMarked_of_emit hemit (by simpa using hparen), List.append_nil]

end Written

/-- Under every plain table, a text in which a tree is legibly written is converted to
the postorder of the tree. -/
theorem toPostfix_of_legible {t : OperatorTable} (plain : t.Plain) {e : Written}
    (h : e.Legible t) {text : String} (hs : Spells e.tokens text.toList) :
    toPostfix t text = .ok (String.ofList (spaced e.tree.postorder)) := by
  rw [toPostfix, h.convert_eq plain hs, map_ok]

/-- The standard operators and two that bind less tightly, of one precedence, and group
to different sides. -/
def twoSidedTable : OperatorTable :=
  (OperatorTable.standard.insert '^' ⟨0, .right⟩).insert '~' ⟨0, .left⟩

def twoSidedTree : Tree :=
  .node '^' (.node '~' (.leaf (.ofNat 1)) (.leaf (.ofNat 2)))
    (.node '^' (.leaf (.ofNat 3))
      (.node '~' (.leaf (.ofNat 4))
        (.node '+' (.leaf (.ofNat 5)) (.leaf (.ofNat 6)))))

theorem toPostfix_twoSidedTree :
    twoSidedTable.Plain ∧ (twoSidedTree.written twoSidedTable).Legible twoSidedTable ∧
      Spells (twoSidedTree.written twoSidedTable).tokens "(1~2)^3 ^ (4~5+6)".toList ∧
        toPostfix twoSidedTable "(1~2)^3 ^ (4~5+6)" =
          .ok "_ 1 _ 2 ~ _ 3 _ 4 _ 5 _ 6 + ~ ^ ^" := by
  have plain : twoSidedTable.Plain :=
    (OperatorTable.plain_standard.insert _ (by decide)).insert _ (by decide)
  have hlegible : (twoSidedTree.written twoSidedTable).Legible twoSidedTable :=
    Tree.legible_written (List.all_eq_true.mp (by decide))
  have htokens : tokens "(1~2)^3 ^ (4~5+6)".toList =
      (twoSidedTree.written twoSidedTable).tokens := by decide
  have hspells : Spells (twoSidedTree.written twoSidedTable).tokens
      "(1~2)^3 ^ (4~5+6)".toList := htokens ▸ spells_tokens _
  refine ⟨plain, hlegible, hspells, ?_⟩
  rw [toPostfix_of_legible plain hlegible hspells, Tree.tree_written]
  decide

end Infix
end Reckoner
