import Reckoner.Decimal.Selection
import Reckoner.Decimal.Layout

/-!
# Numerals of binary64 numbers

The three ways in which numbers are shown.  `shortestText` has the fewest digits
that read back and always marks a fraction; `sixDigitText` has at most six digits;
`resultText` writes whole numbers in full and everything else like `shortestText`.
-/

namespace Reckoner

def signText (negative : Bool) : List Char :=
  if negative then ['-'] else []

/-- The numeral of a whole number. -/
def wholeText (n : Int) : List Char :=
  signText (decide (n < 0)) ++ Nat.toDigits 10 n.natAbs

namespace Binary64

/-- A binary64 number laid out by `l`, with the decimal that `select` chooses. -/
def layOut (l : Decimal.Layout) (select : Magnitude → Decimal) : Binary64 → List Char
  | nan => "nan".toList
  | infinity s => signText s ++ "inf".toList
  | finite s m => signText s ++ l.text (if m.isZero then ⟨0, 0⟩ else select m)

/-- Numbers from `0.0001` up to `10 ^ 16` are positional, whole ones end in `.0`. -/
def shortestLayout : Decimal.Layout :=
  ⟨-4, 16, ['.', '0']⟩

/-- Numbers from `0.0001` up to a million are positional. -/
def sixDigitLayout : Decimal.Layout :=
  ⟨-4, 6, []⟩

def shortestText (x : Binary64) : String :=
  String.ofList (x.layOut shortestLayout Decimal.shortest)

def sixDigitText (x : Binary64) : String :=
  String.ofList (x.layOut sixDigitLayout fun m ↦ .significant 6 m.units unitsPerOne)

def resultText (x : Binary64) : String :=
  match x.whole? with
  | some n => String.ofList (wholeText n)
  | none => x.shortestText

end Binary64
end Reckoner
