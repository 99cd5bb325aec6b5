import Reckoner.Text.Blank
import Reckoner.Text.Quoted
import Mathlib.Data.List.Basic

/-!
# Lines of text

A text is cut into lines at every character that ends one, wherever it comes from.  So a
program that writes a text from outside writes one line only if that text holds none of
them.  Quoted text never does: all of them are characters without a visible form.
-/

namespace Reckoner
namespace Text

/-- The characters that end a line. -/
def lineBoundaries : List Char :=
  ['\n', '\x0b', '\x0c', '\r', '\x1c', '\x1d', '\x1e', '\u0085', '\u2028', '\u2029']

def Unbroken (text : List Char) : Prop :=
  ∀ c ∈ text, c ∉ lineBoundaries

/-- The lines of a text.  A carriage return and a line feed end one line together, and the
last line may want its end. -/
def splitLines : List Char → List (List Char)
  | [] => []
  | '\r' :: '\n' :: rest => [] :: splitLines rest
  | c :: rest =>
    if c ∈ lineBoundaries then [] :: splitLines rest
    else
      match splitLines rest with
      | [] => [[c]]
      | line :: lines => (c :: line) :: lines

variable {c : Char} {x y : List Char}

/-- What holds of no character of the list does not hold of a line boundary. -/
theorem notMem_lineBoundaries {p : Char → Bool} (hnone : lineBoundaries.any p = false)
    (h : p c = true) : c ∉ lineBoundaries :=
  fun hc ↦ List.any_eq_false.mp hnone c hc h

theorem notMem_lineBoundaries_of_not_blank (h : isBlank c = false) : c ∉ lineBoundaries := by
  have hnone : lineBoundaries.any (fun d ↦ !isBlank d) = false := by decide
  exact notMem_lineBoundaries hnone (congrArg not h)

theorem notMem_lineBoundaries_of_printable (h : isPrintable c = true) : c ∉ lineBoundaries := by
  have hnone : lineBoundaries.any isPrintable = false := by decide +kernel
  exact notMem_lineBoundaries hnone h

theorem notMem_lineBoundaries_of_isDigit (h : c.isDigit = true) : c ∉ lineBoundaries := by
  have hnone : lineBoundaries.any Char.isDigit = false := by decide
  exact notMem_lineBoundaries hnone h

/-! ## Texts on one line -/

theorem unbroken_nil : Unbroken [] :=
  fun _ h ↦ absurd h List.not_mem_nil

theorem unbroken_cons : Unbroken (c :: x) ↔ c ∉ lineBoundaries ∧ Unbroken x :=
  List.forall_mem_cons

theorem unbroken_append : Unbroken (x ++ y) ↔ Unbroken x ∧ Unbroken y :=
  List.forall_mem_append

theorem Unbroken.of_subset (h : Unbroken x) (hsub : y ⊆ x) : Unbroken y :=
  fun c hc ↦ h c (hsub hc)

theorem unbroken_of_isDigit (h : ∀ c ∈ x, c.isDigit = true) : Unbroken x :=
  fun c hc ↦ notMem_lineBoundaries_of_isDigit (h c hc)

-- by way of the list: there are too many characters to try them all
instance (text : List Char) : Decidable (Unbroken text) :=
  List.decidableBAll (· ∉ lineBoundaries) text

/-! ## Quoted text is on one line -/

theorem unbroken_hexadecimal (width n : Nat) : Unbroken (hexadecimal width n) := by
  have hdigit : ∀ m < 16, Nat.digitChar m ∉ lineBoundaries := by decide
  induction width generalizing n with
  | zero => exact unbroken_nil
  | succ width ih =>
      rw [hexadecimal, unbroken_append, unbroken_cons]
      exact ⟨ih _, hdigit _ (Nat.mod_lt n (by decide)), unbroken_nil⟩

theorem unbroken_escapeCode (n : Nat) : Unbroken (escapeCode n) := by
  have hstart : ∀ letter ∉ lineBoundaries, ∀ width,
      Unbroken ('\\' :: letter :: hexadecimal width n) := by
    intro letter hletter width
    rw [unbroken_cons, unbroken_cons]
    exact ⟨by decide, hletter, unbroken_hexadecimal width n⟩
  unfold escapeCode
  split
  · exact hstart 'x' (by decide) 2
  · split
    · exact hstart 'u' (by decide) 4
    · exact hstart 'U' (by decide) 8

theorem unbroken_escape {mark : Char} (hmark : mark ∉ lineBoundaries) (c : Char) :
    Unbroken (escape mark c) := by
  unfold escape
  split
  · next hescaped =>
      have hc : c ∉ lineBoundaries := by
        rcases hescaped with rfl | rfl
        · exact hmark
        · decide
      exact unbroken_cons.mpr ⟨by decide, unbroken_cons.mpr ⟨hc, unbroken_nil⟩⟩
  · split
    · decide
    · split
      · decide
      · split
        · decide
        · split
          · next hprintable =>
              exact unbroken_cons.mpr
                ⟨notMem_lineBoundaries_of_printable hprintable, unbroken_nil⟩
          · exact unbroken_escapeCode _

theorem quoteMark_notMem_lineBoundaries (text : List Char) :
    quoteMark text ∉ lineBoundaries := by
  unfold quoteMark
  split <;> decide

theorem unbroken_quoteChars (text : List Char) : Unbroken (quoteChars text) := by
  have hmark := quoteMark_notMem_lineBoundaries text
  refine unbroken_cons.mpr ⟨hmark, unbroken_append.mpr ⟨?_, ?_⟩⟩
  · intro d hd
    obtain ⟨c, -, hc⟩ := List.mem_flatMap.mp hd
    exact unbroken_escape hmark c d hc
  · exact unbroken_cons.mpr ⟨hmark, unbroken_nil⟩

/-! ## Cutting lines -/

theorem splitLines_cons (h : c ∉ lineBoundaries) (rest : List Char) :
    splitLines (c :: rest) =
      match splitLines rest with
      | [] => [[c]]
      | line :: lines => (c :: line) :: lines := by
  rw [splitLines, if_neg h]
  -- a carriage return, which might end a line together with what follows, is a boundary
  rintro _ rfl -
  exact h (by decide)

/-- A line that is ended is cut off. -/
theorem splitLines_append_newline {line : List Char} (h : Unbroken line) (rest : List Char) :
    splitLines (line ++ '\n' :: rest) = line :: splitLines rest := by
  induction line with
  | nil => rfl
  | cons c line ih =>
      obtain ⟨hc, hline⟩ := unbroken_cons.mp h
      rw [List.cons_append, splitLines_cons hc, ih hline]

theorem splitLines_flatMap {lines : List (List Char)} (h : ∀ line ∈ lines, Unbroken line) :
    splitLines (lines.flatMap (· ++ ['\n'])) = lines := by
  induction lines with
  | nil => rfl
  | cons line lines ih =>
      obtain ⟨hline, hlines⟩ := List.forall_mem_cons.mp h
      rw [List.flatMap_cons, List.append_assoc, List.singleton_append,
        splitLines_append_newline hline, ih hlines]

end Text
end Reckoner
