import Reckoner.Proofs.Infix.Moves
import Mathlib.Data.List.Pairwise

/-!
# Conversion only rearranges

Characters pass through a conversion in four ways: a digit or a marker at once, and an
operator by a later operator, by the end of its group or by the end of the text.  To say
that none is lost, doubled or overtaken by the wrong one, each character is followed with
the place where it stands in the marked text.  What one character of the text moves is
one case of `Move`; a run is followed by joining its moves, where all that waits comes
from earlier places than all that is still to be read.
-/

namespace Reckoner
namespace Infix

open Text

/-- A character and its place in a text. -/
abbrev Placed := Char × Nat

/-- Whether conversion puts `c` into its output at all. -/
def isKept (c : Char) : Bool :=
  !isBlank c && !isParenthesis c

def kept (w : List Placed) : List Placed :=
  w.filter fun c ↦ isKept c.1

/-- While `text` is read, what waits before it and `text` itself become what is released
and what stays.  Nothing released stands in front of a digit or a marker of an earlier
place. -/
structure Carries (waiting text released staying : List Placed) : Prop where
  perm : (kept (released ++ staying)).Perm (kept (waiting ++ text))
  subset : released ++ staying ⊆ waiting ++ text
  isKept_of_mem : ∀ c ∈ released, isKept c.1 = true
  mem_text : ∀ c ∈ released, isOperandChar c.1 = true → c ∈ text
  inOrder : released.Pairwise fun a b ↦ isOperandChar b.1 = true → a.2 < b.2

variable {t : OperatorTable} {w x y released staying : List Placed} {c : Placed}

/-! ## Which characters are kept -/

theorem isKept_of_isOperandChar {c : Char} (h : isOperandChar c = true) : isKept c = true := by
  rw [isKept, isBlank_eq_false_of_isOperandChar h, isParenthesis_eq_false_of_isOperandChar h]
  rfl

theorem isKept_of_contains (plain : t.Plain) {c : Char} (h : t.contains c = true) :
    isKept c = true := by
  obtain ⟨f, hf⟩ := Option.isSome_iff_exists.mp h
  obtain ⟨-, hblank, hparen⟩ := plain c f hf
  rw [isKept, hblank, hparen]
  rfl

theorem isOperandChar_of_contains (plain : t.Plain) {c : Char} (h : t.contains c = true) :
    isOperandChar c = false := by
  obtain ⟨f, hf⟩ := Option.isSome_iff_exists.mp h
  exact isOperandChar_eq_false_of_isWord (plain c f hf).1

theorem contains_of_releases {f : Fixity} {d : Char} (h : t.releases f d = true) :
    t.contains d = true := by
  cases hd : t d with
  | none => exact absurd ((releases_eq_false_of_eq_none hd f).symm.trans h) Bool.false_ne_true
  | some g => rw [OperatorTable.contains, hd, Option.isSome_some]

theorem kept_append (w x : List Placed) : kept (w ++ x) = kept w ++ kept x :=
  List.filter_append w x

theorem kept_cons_of_not_kept (h : isKept c.1 = false) (w : List Placed) :
    kept (c :: w) = kept w :=
  List.filter_cons_of_neg (by simp [h])

theorem kept_concat_of_not_kept (h : isKept c.1 = false) (w : List Placed) :
    kept (w ++ [c]) = kept w := by
  rw [kept_append, kept_cons_of_not_kept h]
  exact List.append_nil _

theorem kept_group {opening closing : Placed} (ho : isKept opening.1 = false)
    (hc : isKept closing.1 = false) (w x : List Placed) :
    kept (w ++ opening :: x ++ [closing]) = kept (w ++ x) := by
  rw [kept_concat_of_not_kept hc, kept_append, kept_cons_of_not_kept ho, ← kept_append]

theorem kept_eq_self (h : ∀ c ∈ w, isKept c.1 = true) : kept w = w :=
  List.filter_eq_self.mpr h

/-! ## One character -/

namespace Carries

theorem nil (w : List Placed) : Carries w [] [] w where
  perm := by rw [List.nil_append, List.append_nil]
  subset := by
    rw [List.nil_append, List.append_nil]
    exact List.Subset.refl w
  isKept_of_mem := fun _ hc ↦ absurd hc List.not_mem_nil
  mem_text := fun _ hc ↦ absurd hc List.not_mem_nil
  inOrder := .nil

/-- Operators may be released in any order. -/
theorem of_operators (plain : t.Plain)
    (hperm : (kept (released ++ staying)).Perm (kept (w ++ x)))
    (hsubset : released ++ staying ⊆ w ++ x)
    (hreleased : ∀ c ∈ released, t.contains c.1 = true) : Carries w x released staying where
  perm := hperm
  subset := hsubset
  isKept_of_mem := fun c hc ↦ isKept_of_contains plain (hreleased c hc)
  mem_text := fun c hc hoperand ↦
    absurd ((isOperandChar_of_contains plain (hreleased c hc)).symm.trans hoperand)
      Bool.false_ne_true
  inOrder := List.pairwise_of_forall_mem_list fun _ _ c hc hoperand ↦
    absurd ((isOperandChar_of_contains plain (hreleased c hc)).symm.trans hoperand)
      Bool.false_ne_true

theorem operand (w : List Placed) (hc : isOperandChar c.1 = true) : Carries w [c] [c] w where
  perm := List.perm_append_comm.filter _
  subset := List.perm_append_comm.subset
  isKept_of_mem := by
    intro d hd
    obtain rfl := List.mem_singleton.mp hd
    exact isKept_of_isOperandChar hc
  mem_text := fun _ hd _ ↦ hd
  inOrder := List.pairwise_singleton _ c

/-- One text after another, if all places of the second are later. -/
theorem append {released' staying' : List Placed} (h : Carries w x released staying)
    (h' : Carries staying y released' staying') (hlater : ∀ c ∈ w ++ x, ∀ d ∈ y, c.2 < d.2) :
    Carries w (x ++ y) (released ++ released') staying' where
  perm := by
    have hfirst := h.perm
    have hsecond := h'.perm
    rw [kept_append, kept_append] at hfirst hsecond
    calc kept (released ++ released' ++ staying')
      _ = kept released ++ (kept released' ++ kept staying') := by
        rw [kept_append, kept_append, List.append_assoc]
      List.Perm _ (kept released ++ (kept staying ++ kept y)) := hsecond.append_left _
      _ = kept released ++ kept staying ++ kept y := by rw [List.append_assoc]
      List.Perm _ (kept w ++ kept x ++ kept y) := hfirst.append_right _
      _ = kept (w ++ (x ++ y)) := by rw [kept_append, kept_append, List.append_assoc]
  subset := by
    rw [List.append_assoc, ← List.append_assoc w]
    intro c hc
    rcases List.mem_append.mp hc with hc | hc
    · exact List.mem_append_left _ (h.subset (List.mem_append_left _ hc))
    · rcases List.mem_append.mp (h'.subset hc) with hc | hc
      · exact List.mem_append_left _ (h.subset (List.mem_append_right _ hc))
      · exact List.mem_append_right _ hc
  isKept_of_mem := List.forall_mem_append.mpr ⟨h.isKept_of_mem, h'.isKept_of_mem⟩
  mem_text := List.forall_mem_append.mpr
    ⟨fun c hc hoperand ↦ List.mem_append_left _ (h.mem_text c hc hoperand),
      fun c hc hoperand ↦ List.mem_append_right _ (h'.mem_text c hc hoperand)⟩
  inOrder := List.pairwise_append.mpr ⟨h.inOrder, h'.inOrder, fun c hc d hd hoperand ↦
    hlater c (h.subset (List.mem_append_left _ hc)) d (h'.mem_text d hd hoperand)⟩

end Carries

/-- Every move of characters is a move of placed characters. -/
theorem Move.exists_carries (plain : t.Plain) {a q : List Char}
    (hwaiting : Waiting t (w.map Prod.fst)) (h : Move t (w.map Prod.fst) c.1 a q) :
    ∃ released staying : List Placed, released.map Prod.fst = a ∧ staying.map Prod.fst = q ∧
      Carries w [c] released staying := by
  generalize hp : w.map Prod.fst = p at h hwaiting
  generalize hd : c.1 = d at h
  have hnone : ∀ e ∈ ([] : List Placed), t.contains e.1 = true := fun e he ↦
    absurd he List.not_mem_nil
  cases h with
  | blank hblank =>
      have hdropped : isKept c.1 = false := by
        rw [isKept, hd, hblank]
        rfl
      have hperm : (kept w).Perm (kept (w ++ [c])) :=
        .of_eq (kept_concat_of_not_kept hdropped w).symm
      exact ⟨[], w, rfl, hp,
        .of_operators plain hperm (List.subset_append_left w [c]) hnone⟩
  | operand hoperand =>
      exact ⟨[c], w, congrArg ([·]) hd, hp, .operand w (hd ▸ hoperand)⟩
  | operator hc habove hbelow =>
      obtain ⟨released, staying, rfl, rfl, rfl⟩ := List.map_eq_append_iff.mp hp
      have hperm : (released ++ c :: staying).Perm (released ++ staying ++ [c]) :=
        List.perm_middle.trans (List.perm_append_singleton _ _).symm
      exact ⟨released, c :: staying, rfl, congrArg (· :: _) hd,
        .of_operators plain (hperm.filter _) hperm.subset fun e he ↦
          contains_of_releases (habove e.1 (List.mem_map_of_mem he))⟩
  | opening =>
      have hperm : (c :: w).Perm (w ++ [c]) := (List.perm_append_singleton _ _).symm
      exact ⟨[], c :: w, rfl, congrArg₂ List.cons hd hp,
        .of_operators plain (hperm.filter _) hperm.subset hnone⟩
  | closing hnotMem =>
      obtain ⟨released, rest, rfl, rfl, hrest⟩ := List.map_eq_append_iff.mp hp
      obtain ⟨o, staying, rfl, ho, rfl⟩ := List.map_eq_cons_iff.mp hrest
      have hopening : isKept o.1 = false := ho ▸ rfl
      have hclosing : isKept c.1 = false := hd ▸ rfl
      have hperm : (kept (released ++ staying)).Perm (kept (released ++ o :: staying ++ [c])) :=
        .of_eq (kept_group hopening hclosing released staying).symm
      have hsublist : (released ++ staying).Sublist (released ++ o :: staying) :=
        (List.sublist_cons_self _ _).append_left _
      refine ⟨released, staying, rfl, rfl, .of_operators plain hperm
        (List.Subset.trans hsublist.subset (List.subset_append_left _ _)) fun e he ↦ ?_⟩
      have hmem : e.1 ∈ released.map Prod.fst := List.mem_map_of_mem he
      exact (hwaiting e.1 (List.mem_append_left _ hmem)).resolve_left fun heq ↦
        hnotMem (heq ▸ hmem)

/-! ## Whole texts -/

theorem exists_carries_of_emit (plain : t.Plain) {text : List Placed} {a q : List Char}
    (htext : text.Pairwise fun c d ↦ c.2 < d.2) (hbefore : ∀ c ∈ w, ∀ d ∈ text, c.2 < d.2)
    (hwaiting : Waiting t (w.map Prod.fst))
    (h : emit t ⟨w.map Prod.fst⟩ (text.map Prod.fst) = .ok (a, ⟨q⟩)) :
    ∃ released staying : List Placed, released.map Prod.fst = a ∧ staying.map Prod.fst = q ∧
      Waiting t q ∧ Carries w text released staying := by
  induction text generalizing w a with
  | nil =>
      obtain ⟨rfl, hq⟩ := parts_eq emit_nil h
      obtain rfl := Stack.mk.inj hq
      exact ⟨[], w, rfl, rfl, hwaiting, .nil w⟩
  | cons c text ih =>
      obtain ⟨now, ⟨p⟩, later, hc, hrest, rfl⟩ := emit_cons_eq_ok_iff.mp h
      have hmove := move_of_respond plain hc
      obtain ⟨released, staying, rfl, rfl, hstep⟩ := hmove.exists_carries plain hwaiting
      obtain ⟨hhead, htail⟩ := List.pairwise_cons.mp htext
      -- what waits after `c` comes from `w` and `c`, all from places before the rest
      have hlater : ∀ d ∈ w ++ [c], ∀ e ∈ text, d.2 < e.2 := by
        refine List.forall_mem_append.mpr
          ⟨fun d hd e he ↦ hbefore d hd e (List.mem_cons_of_mem c he), fun d hd e he ↦ ?_⟩
        obtain rfl := List.mem_singleton.mp hd
        exact hhead e he
      have hstaying : ∀ d ∈ staying, ∀ e ∈ text, d.2 < e.2 := fun d hd ↦
        hlater d (hstep.subset (List.mem_append_right _ hd))
      obtain ⟨released', staying', rfl, rfl, hlast, hrun⟩ :=
        ih htail hstaying (hmove.waiting hwaiting) hrest
      exact ⟨released ++ released', staying', List.map_append, rfl, hlast,
        hstep.append hrun hlater⟩

theorem pairwise_zipIdx (text : List Char) : text.zipIdx.Pairwise fun c d ↦ c.2 < d.2 := by
  rw [← List.pairwise_map (f := Prod.snd), List.zipIdx_map_snd]
  exact List.pairwise_lt_range'

/-- The output of a conversion is the kept characters of the marked text, rearranged so
that no digit or marker is overtaken by a later character. -/
theorem exists_rearrangement (plain : t.Plain) {text chars : List Char}
    (h : convert t text = .ok chars) :
    ∃ out : List Placed, out.map Prod.fst = chars ∧ out.Perm (kept (markChars text).zipIdx) ∧
      out.Pairwise fun a b ↦ isOperandChar b.1 = true → a.2 < b.2 := by
  obtain ⟨a, ⟨q⟩, hemit, hparen, rfl⟩ := convertMarked_eq_ok_iff.mp h
  have hplaced : emit t ⟨([] : List Placed).map Prod.fst⟩
      ((markChars text).zipIdx.map Prod.fst) = .ok (a, ⟨q⟩) := by
    rw [List.zipIdx_map_fst]
    exact hemit
  obtain ⟨released, staying, rfl, rfl, hlast, hcarries⟩ :=
    exists_carries_of_emit plain (pairwise_zipIdx _) (fun c hc ↦ absurd hc List.not_mem_nil)
      (fun c hc ↦ absurd hc List.not_mem_nil) hplaced
  -- the text ends with no parenthesis waiting, so only operators are left
  have hoperators : ∀ c ∈ staying, t.contains c.1 = true := by
    intro c hc
    have hmem : c.1 ∈ staying.map Prod.fst := List.mem_map_of_mem hc
    exact (hlast c.1 hmem).resolve_left fun heq ↦
      List.any_eq_false.mp hparen c.1 hmem (heq ▸ rfl)
  have hkept : ∀ c ∈ released ++ staying, isKept c.1 = true :=
    List.forall_mem_append.mpr
      ⟨hcarries.isKept_of_mem, fun c hc ↦ isKept_of_contains plain (hoperators c hc)⟩
  have hinOrder (a : Placed) : ∀ b ∈ staying, isOperandChar b.1 = true → a.2 < b.2 :=
    fun b hb hoperand ↦ absurd
      ((isOperandChar_of_contains plain (hoperators b hb)).symm.trans hoperand)
      Bool.false_ne_true
  refine ⟨released ++ staying, List.map_append, ?_, ?_⟩
  · have hperm := hcarries.perm
    rwa [kept_eq_self hkept] at hperm
  · exact List.pairwise_append.mpr ⟨hcarries.inOrder,
      List.pairwise_of_forall_mem_list fun a _ b hb ↦ hinOrder a b hb,
      fun a _ b hb ↦ hinOrder a b hb⟩

/-- What is in order among itself and has all the digits and markers has them in the
order of the text. -/
theorem filter_isOperandChar_eq {marked : List Char} {out : List Placed}
    (hperm : out.Perm (kept marked.zipIdx))
    (hinOrder : out.Pairwise fun a b ↦ isOperandChar b.1 = true → a.2 < b.2) :
    (out.map Prod.fst).filter isOperandChar = marked.filter isOperandChar := by
  have hoperands : (kept marked.zipIdx).filter (fun c ↦ isOperandChar c.1) =
      marked.zipIdx.filter fun c ↦ isOperandChar c.1 := by
    rw [kept, List.filter_filter]
    refine List.filter_congr fun c _ ↦ ?_
    cases hc : isOperandChar c.1 with
    | false => rfl
    | true => rw [isKept_of_isOperandChar hc, Bool.and_true]
  have hincreasing : (out.filter fun c ↦ isOperandChar c.1).Pairwise fun a b ↦ a.2 < b.2 :=
    (hinOrder.filter _).imp_of_mem fun _ hb hab ↦ hab (List.mem_filter.mp hb).2
  have hsame : (out.filter fun c ↦ isOperandChar c.1) =
      marked.zipIdx.filter fun c ↦ isOperandChar c.1 :=
    List.Perm.eq_of_pairwise (fun _ _ _ _ hab hba ↦ absurd hab (Nat.lt_asymm hba)) hincreasing
      ((pairwise_zipIdx marked).filter _) (hoperands ▸ hperm.filter _)
  have hmap (w : List Placed) : (w.map Prod.fst).filter isOperandChar =
      (w.filter fun c ↦ isOperandChar c.1).map Prod.fst := List.filter_map
  rw [hmap, hsame, ← hmap, List.zipIdx_map_fst]

/-- Under a plain table, the output of a conversion is the characters of the marked text
other than blanks and parentheses, each once.  Digits and markers keep their order, and
no operator comes before a digit or a marker that stands before it in the text. -/
theorem toPostfix_rearranges {t : OperatorTable} (plain : t.Plain) {text stream : String}
    (h : toPostfix t text = .ok stream) :
    ∃ out : List Placed, stream = String.ofList (spaced (out.map Prod.fst)) ∧
      out.Perm (kept (mark text).toList.zipIdx) ∧
      (out.map Prod.fst).filter isOperandChar = (mark text).toList.filter isOperandChar ∧
      (out.Pairwise fun a b ↦ isOperandChar b.1 = true → a.2 < b.2) ∧
      ∀ c ∈ stream.toList, isParenthesis c = false := by
  obtain ⟨chars, hchars, rfl⟩ := toPostfix_eq_ok_iff.mp h
  obtain ⟨out, rfl, hperm, hinOrder⟩ := exists_rearrangement plain hchars
  rw [toList_mark]
  refine ⟨out, rfl, hperm, filter_isOperandChar_eq hperm hinOrder, hinOrder, fun c hc ↦ ?_⟩
  rw [String.toList_ofList] at hc
  rcases mem_of_mem_intersperse hc with rfl | hc
  · rfl
  · obtain ⟨d, hd, rfl⟩ := List.mem_map.mp hc
    have hkept : isKept d.1 = true := (List.mem_filter.mp (hperm.subset hd)).2
    rw [isKept, Bool.and_eq_true, Bool.not_eq_true', Bool.not_eq_true'] at hkept
    exact hkept.2

/-- A text with two numbers side by side and an operator without operands. -/
theorem toPostfix_rearranges_power :
    OperatorTable.withPower.Plain ∧
      toPostfix .withPower "2^(31 -4)^+5" = .ok "_ 2 _ 3 1 _ 4 - ^ ^ _ 5 +" ∧
      ∃ out : List Placed, out.map Prod.fst = "_2_31_4-^^_5+".toList ∧
        out.Perm [('_', 0), ('2', 1), ('^', 2), ('_', 4), ('3', 5), ('1', 6), ('-', 8), ('_', 9),
          ('4', 10), ('^', 12), ('+', 13), ('_', 14), ('5', 15)] ∧
        out.Pairwise fun a b ↦ isOperandChar b.1 = true → a.2 < b.2 := by
  have hstream : toPostfix .withPower "2^(31 -4)^+5" = .ok "_ 2 _ 3 1 _ 4 - ^ ^ _ 5 +" := by
    decide
  obtain ⟨out, hout, hperm, -, hinOrder, -⟩ :=
    toPostfix_rearranges OperatorTable.plain_withPower hstream
  have hjoined : "_ 2 _ 3 1 _ 4 - ^ ^ _ 5 +" =
      String.ofList (spaced "_2_31_4-^^_5+".toList) := by decide
  exact ⟨OperatorTable.plain_withPower, hstream, out,
    spaced_injective (String.ofList_injective (hout.symm.trans hjoined)), hperm, hinOrder⟩

end Infix
end Reckoner
