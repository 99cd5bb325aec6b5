import Reckoner.Proofs.Infix.Kinds
import Mathlib.Data.List.Chain

/-!
# Tokens

A text is read as a list of tokens: its maximal runs of word characters, and every
other character that is not blank.  The relation `Spells` says which texts stand for a
list of tokens, with blanks anywhere between them; `tokens` is the one list that a
text can stand for once no two words touch.  The marked form of a text, blanks aside,
depends on its tokens alone.
-/

namespace Reckoner
namespace Infix

open Text

inductive Token where
  | word (chars : List Char)
  | sign (c : Char)
deriving DecidableEq

namespace Token

def chars : Token → List Char
  | word w => w
  | sign c => [c]

/-- The characters as conversion reads them. -/
def marked : Token → List Char
  | word w => marker :: w
  | sign c => [c]

def isWord : Token → Bool
  | word _ => true
  | sign _ => false

/-- What a text can be cut into. -/
def Proper : Token → Prop
  | word w => w ≠ [] ∧ ∀ c ∈ w, Text.isWord c = true
  | sign c => Text.isWord c = false ∧ isBlank c = false

/-- Two words would be one if nothing stood between them. -/
def Apart (a b : Token) : Prop :=
  a.isWord = true → b.isWord = false

theorem apart_sign_left (c : Char) (b : Token) : Apart (sign c) b :=
  fun h ↦ absurd h Bool.false_ne_true

theorem apart_sign_right (a : Token) (c : Char) : Apart a (sign c) :=
  fun _ ↦ rfl

end Token

def startsWord (text : List Char) : Bool :=
  text.head?.any isWord

/-- `c` in front of the word with which the tokens begin. -/
def extendWord (c : Char) : List Token → List Token
  | .word w :: rest => .word (c :: w) :: rest
  | rest => .word [c] :: rest

def tokens : List Char → List Token
  | [] => []
  | c :: rest =>
    if isBlank c then tokens rest
    else if isWord c then
      if startsWord rest then extendWord c (tokens rest) else .word [c] :: tokens rest
    else .sign c :: tokens rest

/-- The text is the characters of the tokens in order, with blanks before, between and
after them. -/
inductive Spells : List Token → List Char → Prop
  | nil : Spells [] []
  | blank {ts : List Token} {text : List Char} (c : Char) (hc : isBlank c = true)
      (h : Spells ts text) : Spells ts (c :: text)
  | token {ts : List Token} {text : List Char} (tok : Token) (h : Spells ts text) :
      Spells (tok :: ts) (tok.chars ++ text)

@[simp] theorem tokens_nil : tokens [] = [] := rfl

theorem tokens_cons_blank {c : Char} (h : isBlank c = true) (rest : List Char) :
    tokens (c :: rest) = tokens rest := by
  simp [tokens, h]

theorem tokens_cons_sign {c : Char} (hb : isBlank c = false) (hw : isWord c = false)
    (rest : List Char) : tokens (c :: rest) = .sign c :: tokens rest := by
  simp [tokens, hb, hw]

theorem tokens_cons_word {c : Char} (h : isWord c = true) (rest : List Char) :
    tokens (c :: rest) =
      if startsWord rest then extendWord c (tokens rest) else .word [c] :: tokens rest := by
  simp [tokens, isBlank_eq_false_of_isWord h, h]

@[simp] theorem startsWord_nil : startsWord [] = false := rfl

@[simp] theorem startsWord_cons (c : Char) (rest : List Char) :
    startsWord (c :: rest) = isWord c := rfl

theorem exists_tokens_eq_word {text : List Char} (h : startsWord text = true) :
    ∃ w rest, tokens text = .word w :: rest := by
  cases text with
  | nil => simp at h
  | cons c text =>
      rw [tokens_cons_word h]
      split
      · cases tokens text with
        | nil => exact ⟨[c], [], rfl⟩
        | cons tok ts =>
            cases tok with
            | word w => exact ⟨c :: w, ts, rfl⟩
            | sign d => exact ⟨[c], .sign d :: ts, rfl⟩
      · exact ⟨[c], tokens text, rfl⟩

theorem tokens_append_word {w : List Char} (hne : w ≠ []) (hw : ∀ c ∈ w, isWord c = true)
    {rest : List Char} (hrest : startsWord rest = false) :
    tokens (w ++ rest) = .word w :: tokens rest := by
  induction w with
  | nil => exact absurd rfl hne
  | cons c w ih =>
      have hc : isWord c = true := hw c List.mem_cons_self
      rw [List.cons_append, tokens_cons_word hc]
      cases w with
      | nil => simp [hrest]
      | cons d w =>
          have hd : isWord d = true := hw d (by simp)
          have htail := ih (by simp) fun x hx ↦ hw x (List.mem_cons_of_mem c hx)
          rw [htail, List.cons_append, startsWord_cons, hd, if_pos rfl]
          rfl

theorem proper_of_mem_tokens {text : List Char} {tok : Token} (h : tok ∈ tokens text) :
    tok.Proper := by
  induction text generalizing tok with
  | nil => simp at h
  | cons c text ih =>
      cases hb : isBlank c with
      | true => exact ih (by rwa [tokens_cons_blank hb] at h)
      | false =>
          cases hw : isWord c with
          | false =>
              rw [tokens_cons_sign hb hw, List.mem_cons] at h
              rcases h with rfl | h
              · exact ⟨hw, hb⟩
              · exact ih h
          | true =>
              have hone : (Token.word [c]).Proper := ⟨by simp, by simpa using hw⟩
              rw [tokens_cons_word hw] at h
              split at h
              · next hstart =>
                  obtain ⟨w, rest, htokens⟩ := exists_tokens_eq_word hstart
                  rw [htokens] at h ih
                  rcases List.mem_cons.mp h with rfl | h
                  · have hword : (Token.word w).Proper := ih List.mem_cons_self
                    exact ⟨by simp, List.forall_mem_cons.mpr ⟨hw, hword.2⟩⟩
                  · exact ih (List.mem_cons_of_mem _ h)
              · rcases List.mem_cons.mp h with rfl | h
                · exact hone
                · exact ih h

/-! ## Cutting a text -/

def endsWord (text : List Char) : Bool :=
  text.getLast?.any isWord

theorem endsWord_cons_of_endsWord {text : List Char} (h : endsWord text = true) (c : Char) :
    endsWord (c :: text) = true := by
  cases text with
  | nil => cases h
  | cons d text => rwa [endsWord, List.getLast?_cons_cons]

theorem startsWord_append {x : List Char} (h : x ≠ []) (y : List Char) :
    startsWord (x ++ y) = startsWord x := by
  cases x with
  | nil => exact absurd rfl h
  | cons c x => rfl

theorem extendWord_append {c : Char} {ts : List Token} (h : ts ≠ []) (us : List Token) :
    extendWord c (ts ++ us) = extendWord c ts ++ us := by
  cases ts with
  | nil => exact absurd rfl h
  | cons tok ts => cases tok <;> rfl

/-- A text can be cut anywhere but inside a word. -/
theorem tokens_append {x y : List Char} (h : endsWord x = true → startsWord y = false) :
    tokens (x ++ y) = tokens x ++ tokens y := by
  induction x with
  | nil => rfl
  | cons c x ih =>
      have hrest := ih fun hx ↦ h (endsWord_cons_of_endsWord hx c)
      rw [List.cons_append]
      cases hb : isBlank c with
      | true => rw [tokens_cons_blank hb, tokens_cons_blank hb, hrest]
      | false =>
          cases hw : isWord c with
          | false => rw [tokens_cons_sign hb hw, tokens_cons_sign hb hw, hrest, List.cons_append]
          | true =>
              rw [tokens_cons_word hw, tokens_cons_word hw, hrest]
              by_cases hx : x = []
              · subst hx
                have hy : startsWord y = false := h (by simpa [endsWord] using hw)
                rw [List.nil_append, hy]
                rfl
              · rw [startsWord_append hx]
                cases hstart : startsWord x with
                | false => rfl
                | true =>
                    obtain ⟨w, rest, htokens⟩ := exists_tokens_eq_word hstart
                    rw [if_pos rfl, if_pos rfl, extendWord_append (by simp [htokens])]

theorem tokens_append_of_blank {w : List Char} (hw : ∀ c ∈ w, isBlank c = true)
    (y : List Char) : tokens (w ++ y) = tokens y := by
  induction w with
  | nil => rfl
  | cons c w ih =>
      obtain ⟨hc, hrest⟩ := List.forall_mem_cons.mp hw
      rw [List.cons_append, tokens_cons_blank hc, ih hrest]

/-- Blanks can be put in or left out anywhere but inside a word. -/
theorem tokens_append_blanks {x w y : List Char} (hw : ∀ c ∈ w, isBlank c = true)
    (h : endsWord x = true → startsWord y = false) :
    tokens (x ++ w ++ y) = tokens (x ++ y) := by
  rw [List.append_assoc]
  by_cases hne : w = []
  · rw [hne, List.nil_append]
  · have hstart : startsWord (w ++ y) = false := by
      obtain ⟨c, w, rfl⟩ := List.exists_cons_of_ne_nil hne
      exact isWord_eq_false_of_isBlank (hw c List.mem_cons_self)
    rw [tokens_append fun _ ↦ hstart, tokens_append h, tokens_append_of_blank hw]

/-! ## Texts and their tokens -/

theorem startsWord_eq_false_of_spells {ts : List Token} {text : List Char}
    (h : Spells ts text) (hproper : ∀ tok ∈ ts, tok.Proper)
    (hhead : ∀ tok ∈ ts.head?, tok.isWord = false) : startsWord text = false := by
  induction h with
  | nil => rfl
  | blank c hc h ih =>
      exact isWord_eq_false_of_isBlank hc
  | token tok h ih =>
      cases tok with
      | word w => simp [Token.isWord] at hhead
      | sign c => exact (hproper _ List.mem_cons_self).1

theorem tokens_eq_of_spells {ts : List Token} {text : List Char} (h : Spells ts text)
    (hproper : ∀ tok ∈ ts, tok.Proper) (hapart : ts.IsChain Token.Apart) :
    tokens text = ts := by
  induction h with
  | nil => rfl
  | blank c hc h ih => rw [tokens_cons_blank hc, ih hproper hapart]
  | @token ts text tok h ih =>
      obtain ⟨hhead, hrest⟩ := List.isChain_cons.mp hapart
      have hts : ∀ tok ∈ ts, tok.Proper := fun x hx ↦ hproper x (List.mem_cons_of_mem _ hx)
      have htok := hproper tok List.mem_cons_self
      cases tok with
      | word w =>
          have hstart := startsWord_eq_false_of_spells h hts fun x hx ↦ hhead x hx rfl
          exact (tokens_append_word htok.1 htok.2 hstart).trans (by rw [ih hts hrest])
      | sign c =>
          exact (tokens_cons_sign htok.2 htok.1 text).trans (by rw [ih hts hrest])

theorem spells_tokens (text : List Char) : Spells (tokens text) text := by
  induction text with
  | nil => exact .nil
  | cons c text ih =>
      cases hb : isBlank c with
      | true =>
          rw [tokens_cons_blank hb]
          exact .blank c hb ih
      | false =>
          cases hw : isWord c with
          | false =>
              rw [tokens_cons_sign hb hw]
              exact .token (.sign c) ih
          | true =>
              rw [tokens_cons_word hw]
              split
              · next hstart =>
                  obtain ⟨w, rest, htokens⟩ := exists_tokens_eq_word hstart
                  rw [htokens] at ih ⊢
                  -- The word is spelled at once, since the text begins with it.
                  cases ih with
                  | blank d hd h =>
                      rw [startsWord_cons, isWord_eq_false_of_isBlank hd] at hstart
                      exact absurd hstart Bool.false_ne_true
                  | token tok h => exact .token (.word (c :: w)) h
              · exact .token (.word [c]) ih

theorem filter_visible_eq_of_spells {ts : List Token} {text : List Char}
    (h : Spells ts text) (hproper : ∀ tok ∈ ts, tok.Proper) :
    text.filter (fun c ↦ !isBlank c) = ts.flatMap Token.chars := by
  induction h with
  | nil => rfl
  | blank c hc h ih => simpa [hc] using ih hproper
  | token tok h ih =>
      rw [List.filter_append, List.flatMap_cons,
        ih fun x hx ↦ hproper x (List.mem_cons_of_mem _ hx), List.append_cancel_right_eq,
        List.filter_eq_self]
      intro c hc
      have htok := hproper tok List.mem_cons_self
      cases tok with
      | word w => simp [isBlank_eq_false_of_isWord (htok.2 c hc)]
      | sign d =>
          obtain rfl : c = d := by simpa [Token.chars] using hc
          simp [htok.2]

/-! ## The marked form -/

/-- The first marker is missing where the word went on. -/
theorem filter_visible_markAfter (before : Char) (text : List Char) :
    (markAfter before text).filter (fun c ↦ !isBlank c) =
      if isWord before && startsWord text then ((tokens text).flatMap Token.marked).tail
      else (tokens text).flatMap Token.marked := by
  induction text generalizing before with
  | nil => simp
  | cons c text ih =>
      rw [markAfter_cons, List.filter_append, ih c, startsWord_cons]
      cases hb : isBlank c with
      | true =>
          have hw := isWord_eq_false_of_isBlank hb
          simp [beginsWord, hw, hb, tokens_cons_blank hb]
      | false =>
          cases hw : isWord c with
          | false => simp [beginsWord, hw, hb, tokens_cons_sign hb hw, Token.marked]
          | true =>
              rw [tokens_cons_word hw]
              cases hstart : startsWord text with
              | false =>
                  cases hbefore : isWord before <;>
                    simp [beginsWord, hw, hb, hbefore, isBlank_marker, Token.marked]
              | true =>
                  obtain ⟨w, rest, htokens⟩ := exists_tokens_eq_word hstart
                  cases hbefore : isWord before <;>
                    simp [beginsWord, hw, hb, hbefore, isBlank_marker, Token.marked, htokens,
                      extendWord]

theorem filter_visible_markChars (text : List Char) :
    (markChars text).filter (fun c ↦ !isBlank c) = (tokens text).flatMap Token.marked := by
  have hspace : isWord ' ' = false := rfl
  rw [markChars, filter_visible_markAfter, hspace, Bool.false_and, if_neg Bool.false_ne_true]

end Infix
end Reckoner
