import Reckoner.Text.CodePoints

/-!
# Blank characters

Blanks separate the tokens of an expression and of a postfix stream.  They are
the characters with the Unicode property `White_Space` together with the four
information separators U+001C to U+001F, which have no such property but are
separators by name.
-/

namespace Reckoner
namespace Text

def whiteSpaceRanges : CodePoints :=
  [(0x09, 0x0D), (0x20, 0x20), (0x85, 0x85), (0xA0, 0xA0), (0x1680, 0x1680),
    (0x2000, 0x200A), (0x2028, 0x2029), (0x202F, 0x202F), (0x205F, 0x205F),
    (0x3000, 0x3000)]

/-- The Unicode property `White_Space`. -/
def isWhiteSpace (c : Char) : Bool :=
  whiteSpaceRanges.covers c

def isInformationSeparator (c : Char) : Bool :=
  decide (0x1C ≤ c.toNat) && decide (c.toNat ≤ 0x1F)

def isBlank (c : Char) : Bool :=
  isWhiteSpace c || isInformationSeparator c

/-- `text` without the white space at its two ends. -/
def trim (text : List Char) : List Char :=
  ((text.dropWhile isWhiteSpace).reverse.dropWhile isWhiteSpace).reverse

/-- A visible ASCII character is not blank. -/
theorem isBlank_eq_false_of_visible {c : Char} (low : 0x20 < c.toNat)
    (high : c.toNat < 0x7F) : isBlank c = false := by
  simp [isBlank, isWhiteSpace, isInformationSeparator, whiteSpaceRanges,
    CodePoints.covers]
  omega

end Text
end Reckoner
