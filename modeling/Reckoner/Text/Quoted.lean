import Reckoner.Text.Printable

/-!
# Quoted text

Text inside a message is quoted, so that it stays on one line and its ends are
seen.  The marks are apostrophes, or quotation marks where the text holds an
apostrophe and no quotation mark.  The mark in use and the backslash are escaped
by a backslash, and so is every character without a visible form: `\t`, `\n` and
`\r` by name, the others by the shortest of `\xNN`, `\uNNNN` and `\UNNNNNNNN`.
-/

namespace Reckoner
namespace Text

/-- The last `width` hexadecimal digits of `n`, in lower case. -/
def hexadecimal : Nat → Nat → List Char
  | 0, _ => []
  | width + 1, n => hexadecimal width (n / 16) ++ [Nat.digitChar (n % 16)]

@[simp] theorem length_hexadecimal (width n : Nat) :
    (hexadecimal width n).length = width := by
  induction width generalizing n with
  | zero => rfl
  | succ width ih => simp [hexadecimal, ih]

def escapeCode (n : Nat) : List Char :=
  if n < 0x100 then '\\' :: 'x' :: hexadecimal 2 n
  else if n < 0x10000 then '\\' :: 'u' :: hexadecimal 4 n
  else '\\' :: 'U' :: hexadecimal 8 n

/-- How `c` is written between two quote marks `mark`. -/
def escape (mark c : Char) : List Char :=
  if c = mark ∨ c = '\\' then ['\\', c]
  else if c = '\t' then ['\\', 't']
  else if c = '\n' then ['\\', 'n']
  else if c = '\r' then ['\\', 'r']
  else if isPrintable c then [c]
  else escapeCode c.toNat

def quoteMark (text : List Char) : Char :=
  if text.contains '\'' && !text.contains '"' then '"' else '\''

def quoteChars (text : List Char) : List Char :=
  let mark := quoteMark text
  mark :: (text.flatMap (escape mark) ++ [mark])

def quote (text : String) : String :=
  String.ofList (quoteChars text.toList)

@[simp] theorem toList_quote (text : String) :
    (quote text).toList = quoteChars text.toList := by
  simp [quote]

end Text
end Reckoner
