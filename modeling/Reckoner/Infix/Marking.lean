import Reckoner.Text.Word

/-!
# Marking words

Conversion handles one character at a time, so the digits of a number have to be kept
together.  A marker is put in front of every maximal run of word characters; the digits
that follow a marker then belong to one number.  Everything else stays as it is.
-/

namespace Reckoner
namespace Infix

open Text

def marker : Char := '_'

/-- Whether `c` begins a maximal run, given the character before it. -/
def beginsWord (before c : Char) : Bool :=
  isWord c && !isWord before

/-- The marked form of a text that stands after the character `before`. -/
def markAfter (before : Char) (text : List Char) : List Char :=
  (text.zip (before :: text)).flatMap fun (c, b) ↦
    if beginsWord b c then [marker, c] else [c]

def markChars (text : List Char) : List Char :=
  markAfter ' ' text

def mark (text : String) : String :=
  String.ofList (markChars text.toList)

@[simp] theorem markAfter_nil (before : Char) : markAfter before [] = [] := rfl

theorem markAfter_cons (before c : Char) (rest : List Char) :
    markAfter before (c :: rest) =
      (if beginsWord before c then [marker, c] else [c]) ++ markAfter c rest := rfl

/-- Only the class of the character before counts. -/
theorem markAfter_congr {b b' : Char} (h : isWord b = isWord b') (text : List Char) :
    markAfter b text = markAfter b' text := by
  cases text with
  | nil => rfl
  | cons c rest => simp [markAfter_cons, beginsWord, h]

/-- Marking goes through a text from left to right. -/
theorem markAfter_append (before : Char) (x y : List Char) :
    markAfter before (x ++ y) = markAfter before x ++ markAfter (x.getLastD before) y := by
  induction x generalizing before with
  | nil => rfl
  | cons c x ih =>
    rw [List.cons_append, markAfter_cons, markAfter_cons, ih, List.append_assoc,
      List.getLastD_cons]

@[simp] theorem toList_mark (text : String) : (mark text).toList = markChars text.toList := by
  simp [mark]

end Infix
end Reckoner
