import Reckoner.Proofs.Infix.Groups
import Reckoner.Proofs.Infix.Tokens

/-!
# Segments

A text falls into its maximal runs of word characters and the single characters between
them, blanks included.  There is one way to cut it so, and marking a text puts a marker
in front of the runs of this cut.  A marker is a word character too, so it lengthens the
run it stands in front of and makes no new one: the cut of the marked text is that of the
text with longer runs.  So what was marked is found again, whether or not there were
markers before.
-/

namespace Reckoner
namespace Infix

open Text

namespace Token

/-- The marker counted as part of the word. -/
def extended : Token → Token
  | word w => word (marker :: w)
  | sign c => sign c

/-- The characters without the first one of a word. -/
def shortened : Token → List Char
  | word w => w.tail
  | sign c => [c]

end Token

/-- The text is cut into runs of word characters that go on as far as they can, and
single other characters. -/
inductive Segmented : List Token → List Char → Prop
  | nil : Segmented [] []
  | word {ts : List Token} {text : List Char} (w : List Char) (hne : w ≠ [])
      (hw : ∀ c ∈ w, isWord c = true) (hend : startsWord text = false)
      (h : Segmented ts text) : Segmented (.word w :: ts) (w ++ text)
  | sign {ts : List Token} {text : List Char} (c : Char) (hc : isWord c = false)
      (h : Segmented ts text) : Segmented (.sign c :: ts) (c :: text)

/-- `w`, between `x` and `y`, is a run of word characters that is part of no longer one. -/
structure MaximalRun (x w y : List Char) : Prop where
  ne_nil : w ≠ []
  isWord_of_mem : ∀ c ∈ w, isWord c = true
  left : endsWord x = false
  right : startsWord y = false

variable {ts us : List Token} {text w x y : List Char} {c : Char}

/-! ## One cut -/

theorem startsWord_of_forall (hne : w ≠ []) (hw : ∀ c ∈ w, isWord c = true) (y : List Char) :
    startsWord (w ++ y) = true := by
  obtain ⟨c, w, rfl⟩ := List.exists_cons_of_ne_nil hne
  exact hw c List.mem_cons_self

theorem takeWhile_isWord_append (hw : ∀ c ∈ w, isWord c = true) (hend : startsWord y = false) :
    (w ++ y).takeWhile isWord = w := by
  rw [List.takeWhile_append_of_pos hw]
  cases y with
  | nil => simp
  | cons c y => rw [List.takeWhile_cons_of_neg (by simpa using hend), List.append_nil]

namespace Segmented

theorem spelled (h : Segmented ts text) : ts.flatMap Token.chars = text := by
  induction h with
  | nil => rfl
  | word w _ _ _ _ ih => rw [List.flatMap_cons, ih, Token.chars]
  | sign c _ _ ih => rw [List.flatMap_cons, ih, Token.chars, List.singleton_append]

/-- Only a cut that begins with a word is one of a text that does. -/
theorem exists_word (h : Segmented ts text) (hstart : startsWord text = true) :
    ∃ w us rest, ts = .word w :: us ∧ text = w ++ rest ∧ (∀ c ∈ w, isWord c = true) ∧
      startsWord rest = false ∧ Segmented us rest := by
  cases h with
  | nil => cases hstart
  | word w hne hw hend h => exact ⟨w, _, _, rfl, rfl, hw, hend, h⟩
  | sign c hc h => exact absurd (hc.symm.trans hstart) Bool.false_ne_true

theorem exists_sign (h : Segmented ts (c :: text)) (hc : isWord c = false) :
    ∃ us, ts = .sign c :: us ∧ Segmented us text := by
  generalize hx : c :: text = x at h
  cases h with
  | nil => cases hx
  | word w hne hw hend h =>
      have hstart : isWord c = true := by
        rw [← startsWord_cons c text, hx]
        exact startsWord_of_forall hne hw _
      exact absurd (hc.symm.trans hstart) Bool.false_ne_true
  | sign d hd h =>
      obtain ⟨rfl, rfl⟩ := List.cons.inj hx
      exact ⟨_, rfl, h⟩

theorem unique (h : Segmented ts text) (h' : Segmented us text) : us = ts := by
  induction h generalizing us with
  | nil =>
      generalize hx : [] = x at h'
      cases h' with
      | nil => rfl
      | word w hne => exact absurd (List.nil_eq_append_iff.mp hx).1 hne
      | sign c => cases hx
  | word w hne hw hend h ih =>
      obtain ⟨v, vs, rest, rfl, heq, hv, hrest, hvs⟩ :=
        h'.exists_word (startsWord_of_forall hne hw _)
      -- both are the longest run of word characters at the start
      obtain rfl : w = v := by
        rw [← takeWhile_isWord_append hw hend, heq, takeWhile_isWord_append hv hrest]
      obtain rfl := List.append_cancel_left heq
      rw [ih hvs]
  | sign c hc h ih =>
      obtain ⟨vs, rfl, hvs⟩ := h'.exists_sign hc
      rw [ih hvs]

end Segmented

theorem exists_segmented (text : List Char) : ∃ ts, Segmented ts text := by
  induction text with
  | nil => exact ⟨[], .nil⟩
  | cons c text ih =>
      obtain ⟨ts, hts⟩ := ih
      cases hc : isWord c with
      | false => exact ⟨_, .sign c hc hts⟩
      | true =>
          cases hstart : startsWord text with
          | false => exact ⟨_, .word [c] (List.cons_ne_nil c []) (by simpa using hc) hstart hts⟩
          | true =>
              obtain ⟨w, us, rest, rfl, rfl, hw, hrest, hus⟩ := hts.exists_word hstart
              exact ⟨_, .word (c :: w) (List.cons_ne_nil c w)
                (List.forall_mem_cons.mpr ⟨hc, hw⟩) hrest hus⟩

/-! ## The words of a cut are the maximal runs -/

theorem endsWord_of_forall (hne : w ≠ []) (hw : ∀ c ∈ w, isWord c = true) :
    endsWord w = true := by
  rw [endsWord, List.getLast?_eq_some_getLast hne]
  exact hw _ (List.getLast_mem hne)

theorem endsWord_append (x : List Char) (hy : y ≠ []) : endsWord (x ++ y) = endsWord y := by
  rw [endsWord, List.getLast?_append_of_ne_nil x hy, endsWord]

theorem endsWord_append_eq_false (hx : endsWord x = false) (hy : endsWord y = false) :
    endsWord (x ++ y) = false := by
  by_cases hne : y = []
  · rwa [hne, List.append_nil]
  · rwa [endsWord_append x hne]

namespace Segmented

theorem append (h : Segmented ts x) (h' : Segmented us y)
    (hcut : endsWord x = true → startsWord y = false) : Segmented (ts ++ us) (x ++ y) := by
  induction h with
  | nil => exact h'
  | @word ts x w hne hw hend h ih =>
      rw [List.append_assoc]
      refine .word w hne hw ?_ (ih fun hx ↦ hcut ?_)
      · by_cases hx : x = []
        · subst hx
          rw [List.append_nil] at hcut
          exact hcut (endsWord_of_forall hne hw)
        · exact (startsWord_append hx y).trans hend
      · by_cases hne' : x = []
        · subst hne'
          cases hx
        · rwa [endsWord_append w hne']
  | sign c hc h ih =>
      exact .sign c hc (ih fun hx ↦ hcut (endsWord_cons_of_endsWord hx c))

theorem maximalRun {before after : List Token} (h : Segmented (before ++ .word w :: after) text) :
    MaximalRun (before.flatMap Token.chars) w (after.flatMap Token.chars) := by
  induction before generalizing text with
  | nil =>
      cases h with
      | word _ hne hw hend h => exact ⟨hne, hw, rfl, h.spelled ▸ hend⟩
  | cons tok before ih =>
      rw [List.flatMap_cons]
      cases h with
      | sign c hc h =>
          have hrun := ih h
          have hfirst : endsWord [c] = false := by simpa [endsWord] using hc
          exact { hrun with left := endsWord_append_eq_false hfirst hrun.left }
      | word v _ _ hend h =>
          have hcut : Segmented (before ++ .word w :: after) _ := h
          have hrun := ih hcut
          -- what stands between the two words cannot be empty
          have hne : before.flatMap Token.chars ≠ [] := by
            intro hnil
            rw [← hcut.spelled, List.flatMap_append, hnil, List.flatMap_cons, List.nil_append,
              Token.chars, startsWord_of_forall hrun.ne_nil hrun.isWord_of_mem] at hend
            cases hend
          exact { hrun with left := (endsWord_append _ hne).trans hrun.left }

end Segmented

theorem MaximalRun.exists_segmented (h : MaximalRun x w y) :
    ∃ before after, Segmented (before ++ .word w :: after) (x ++ (w ++ y)) ∧
      before.flatMap Token.chars = x ∧ after.flatMap Token.chars = y := by
  obtain ⟨before, hx⟩ := Infix.exists_segmented x
  obtain ⟨after, hy⟩ := Infix.exists_segmented y
  refine ⟨before, after, hx.append (.word w h.ne_nil h.isWord_of_mem h.right hy) fun hends ↦ ?_,
    hx.spelled, hy.spelled⟩
  exact absurd (h.left.symm.trans hends) Bool.false_ne_true

/-- The words of the cut are the maximal runs, each at its place. -/
theorem Segmented.maximalRun_iff (h : Segmented ts (x ++ (w ++ y))) :
    MaximalRun x w y ↔
      ∃ before after, ts = before ++ .word w :: after ∧ before.flatMap Token.chars = x ∧
        after.flatMap Token.chars = y := by
  constructor
  · intro hrun
    obtain ⟨before, after, hcut, hx, hy⟩ := hrun.exists_segmented
    exact ⟨before, after, hcut.unique h, hx, hy⟩
  · rintro ⟨before, after, rfl, rfl, rfl⟩
    exact h.maximalRun

/-! ## Marking a cut -/

theorem markAfter_of_isWord {b : Char} (hb : isWord b = true) (hw : ∀ c ∈ w, isWord c = true) :
    markAfter b w = w := by
  induction w generalizing b with
  | nil => rfl
  | cons c w ih =>
      obtain ⟨hc, hrest⟩ := List.forall_mem_cons.mp hw
      rw [markAfter_cons, beginsWord, hb, Bool.not_true, Bool.and_false,
        if_neg Bool.false_ne_true, ih hc hrest, List.singleton_append]

theorem markChars_word (hne : w ≠ []) (hw : ∀ c ∈ w, isWord c = true) :
    markChars w = marker :: w := by
  obtain ⟨c, w, rfl⟩ := List.exists_cons_of_ne_nil hne
  obtain ⟨hc, hrest⟩ := List.forall_mem_cons.mp hw
  have hbegins : beginsWord ' ' c = true := by
    rw [beginsWord, hc]
    rfl
  rw [markChars, markAfter_cons, if_pos hbegins, markAfter_of_isWord hc hrest]
  rfl

theorem isWord_getLastD (x : List Char) : isWord (x.getLastD ' ') = endsWord x := by
  rw [endsWord, List.getLastD_eq_getLast?]
  cases x.getLast? <;> rfl

/-- Where a word goes on, its marker is missing. -/
theorem length_markAfter (b : Char) (y : List Char) :
    (markAfter b y).length + (if isWord b && startsWord y then 1 else 0) =
      (markChars y).length := by
  cases y with
  | nil => simp
  | cons c y =>
      have hspace : isWord ' ' = false := rfl
      rw [markChars, markAfter_cons, markAfter_cons, beginsWord, beginsWord, startsWord_cons,
        hspace]
      cases isWord b <;> cases isWord c <;> simp

theorem markAfter_eq_markChars_iff (b : Char) (y : List Char) :
    markAfter b y = markChars y ↔ (isWord b = true → startsWord y = false) := by
  constructor
  · intro heq hb
    have hlength := length_markAfter b y
    rw [heq, hb, Bool.true_and] at hlength
    cases hstart : startsWord y with
    | false => rfl
    | true =>
        rw [hstart, if_pos rfl] at hlength
        omega
  · intro hcut
    cases hb : isWord b with
    | false => exact markAfter_congr (hb.trans rfl) y
    | true =>
        cases y with
        | nil => rfl
        | cons c y =>
            have hc : isWord c = false := hcut hb
            rw [markAfter_cons_of_not_word hc, markChars_cons_of_not_word hc]

/-- Two texts are marked apart unless a word of the one goes on in the other. -/
theorem markChars_append_iff (x y : List Char) :
    markChars (x ++ y) = markChars x ++ markChars y ↔
      (endsWord x = true → startsWord y = false) := by
  rw [markChars_append, List.append_right_inj, markAfter_eq_markChars_iff, isWord_getLastD]

namespace Segmented

theorem markChars_eq (h : Segmented ts text) : markChars text = ts.flatMap Token.marked := by
  induction h with
  | nil => rfl
  | word w hne hw hend h ih =>
      rw [(markChars_append_iff w _).mpr fun _ ↦ hend, markChars_word hne hw, ih]
      rfl
  | sign c hc h ih =>
      rw [markChars_cons_of_not_word hc, ih]
      rfl

theorem startsWord_marked (h : Segmented ts text) :
    startsWord (ts.flatMap Token.marked) = startsWord text := by
  cases h with
  | nil => rfl
  | word w hne hw hend h => exact (startsWord_of_forall hne hw _).symm
  | sign c hc h => rfl

/-- The marked text is cut like the text. -/
theorem extended (h : Segmented ts text) :
    Segmented (ts.map Token.extended) (markChars text) := by
  rw [h.markChars_eq]
  induction h with
  | nil => exact .nil
  | word w hne hw hend h ih =>
      refine .word (marker :: w) (List.cons_ne_nil _ w) ?_ ?_ ih
      · exact List.forall_mem_cons.mpr ⟨isWord_marker, hw⟩
      · exact h.startsWord_marked.trans hend
  | sign c hc h ih => exact .sign c hc ih

/-- What was marked is found again. -/
theorem shortened_of_marked (h : Segmented us (markChars text)) :
    us.flatMap Token.shortened = text := by
  obtain ⟨ts, hts⟩ := exists_segmented text
  obtain rfl := hts.extended.unique h
  have hchars : ∀ tok : Token, tok.extended.shortened = tok.chars := by
    intro tok
    cases tok <;> rfl
  rw [List.flatMap_map, ← hts.spelled]
  simp only [hchars]

end Segmented

theorem markChars_injective : Function.Injective markChars := by
  intro x y heq
  obtain ⟨us, hus⟩ := exists_segmented (markChars x)
  rw [← hus.shortened_of_marked, (heq ▸ hus : Segmented us (markChars y)).shortened_of_marked]

/-- A text is cut in one way into its maximal runs of word characters and the single
characters between them.  Marking puts one marker in front of each run and changes
nothing else; the marked text has the same cut with the markers counted as part of the
runs, so leaving out the first character of each of its runs gives the text back, and
different texts stay different.  Two texts can be marked apart exactly if no run of one
goes on in the other. -/
theorem mark_segmented :
    (∀ text : String, ∃ ts, Segmented ts text.toList ∧
      (∀ us, Segmented us text.toList → us = ts) ∧
      (∀ x w y, text.toList = x ++ (w ++ y) →
        (MaximalRun x w y ↔
          ∃ before after, ts = before ++ .word w :: after ∧
            before.flatMap Token.chars = x ∧ after.flatMap Token.chars = y)) ∧
      ts.flatMap Token.chars = text.toList ∧
      (mark text).toList = ts.flatMap Token.marked ∧
      Segmented (ts.map Token.extended) (mark text).toList) ∧
    (∀ (text : String) us, Segmented us (mark text).toList →
      us.flatMap Token.shortened = text.toList) ∧
    (∀ x y : String, mark (x ++ y) = mark x ++ mark y ↔
      (endsWord x.toList = true → startsWord y.toList = false)) ∧
    Function.Injective mark := by
  refine ⟨fun text ↦ ?_, fun text us hus ↦ ?_, fun x y ↦ ?_, fun x y heq ↦ ?_⟩
  · obtain ⟨ts, hts⟩ := exists_segmented text.toList
    rw [toList_mark]
    exact ⟨ts, hts, fun us hus ↦ hts.unique hus, fun x w y heq ↦ (heq ▸ hts).maximalRun_iff,
      hts.spelled, hts.markChars_eq, hts.extended⟩
  · rw [toList_mark] at hus
    exact hus.shortened_of_marked
  · rw [← markChars_append_iff, ← String.toList_inj, String.toList_append, toList_mark, toList_mark,
      toList_mark, String.toList_append]
  · have hmarked := congrArg String.toList heq
    rw [toList_mark, toList_mark] at hmarked
    exact String.toList_inj.mp (markChars_injective hmarked)

theorem mark_segmented_low_lines :
    MaximalRun [] ['_', '1'] ['é', '2'] ∧
      Segmented [.word ['_', '_', '1'], .sign 'é', .word ['_', '2']] (mark "_1é2").toList ∧
      [Token.word ['_', '_', '1'], .sign 'é', .word ['_', '2']].flatMap Token.shortened =
        "_1é2".toList ∧
      mark ("_1" ++ "é2") = mark "_1" ++ mark "é2" ∧
      mark ("_1" ++ "2") ≠ mark "_1" ++ mark "2" := by
  have hmarked : (mark "_1é2").toList = ['_', '_', '1'] ++ 'é' :: (['_', '2'] ++ []) := by
    rw [toList_mark]
    decide
  have hcut : Segmented [.word ['_', '_', '1'], .sign 'é', .word ['_', '2']]
      (mark "_1é2").toList := by
    rw [hmarked]
    exact .word _ (by decide) (List.all_eq_true.mp (by decide)) rfl
      (.sign 'é' rfl (.word _ (by decide) (List.all_eq_true.mp (by decide)) rfl .nil))
  obtain ⟨hcuts, hshortened, happend, -⟩ := mark_segmented
  refine ⟨?_, hcut, hshortened _ _ hcut, (happend "_1" "é2").mpr fun _ ↦ rfl, ?_⟩
  · obtain ⟨ts, -, hunique, hruns, -⟩ := hcuts "_1é2"
    have htext : Segmented [.word ['_', '1'], .sign 'é', .word ['2']] "_1é2".toList :=
      .word ['_', '1'] (by decide) (List.all_eq_true.mp (by decide)) rfl
        (.sign 'é' rfl (.word ['2'] (by decide) (List.all_eq_true.mp (by decide)) rfl .nil))
    exact (hruns [] ['_', '1'] ['é', '2'] rfl).mpr ⟨[], _, (hunique _ htext).symm, rfl, rfl⟩
  · rw [ne_eq, happend]
    exact fun hcut ↦ Bool.false_ne_true (hcut rfl).symm

end Infix
end Reckoner
