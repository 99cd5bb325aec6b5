import Reckoner.Text.Blank

/-!
# Word characters

Word characters are the ASCII letters and digits and the low line.  The class is
ASCII on purpose: a letter or digit of another script is never part of a word.
-/

namespace Reckoner
namespace Text

def isWord (c : Char) : Bool :=
  c.isAlphanum || c == '_'

theorem isWord_of_isDigit {c : Char} (h : c.isDigit = true) : isWord c = true := by
  simp [isWord, Char.isAlphanum, h]

/-- A word character is a visible ASCII character. -/
theorem toNat_bounds_of_isWord {c : Char} (h : isWord c = true) :
    48 ≤ c.toNat ∧ c.toNat ≤ 122 := by
  change (((decide (c.val ≥ 'A'.val ∧ c.val ≤ 'Z'.val) ||
    (decide (c.val ≥ 'a'.val) && decide (c.val ≤ 'z'.val))) ||
    (decide (c.val ≥ '0'.val) && decide (c.val ≤ '9'.val))) || c == '_') = true at h
  simp only [Bool.or_eq_true, Bool.and_eq_true, decide_eq_true_eq, beq_iff_eq, ge_iff_le,
    UInt32.le_iff_toNat_le, Char.toNat_val] at h
  rcases h with ((⟨low, high⟩ | ⟨low, high⟩) | ⟨low, high⟩) | rfl
  · exact ⟨Nat.le_trans (by decide) low, Nat.le_trans high (by decide)⟩
  · exact ⟨Nat.le_trans (by decide) low, Nat.le_trans high (by decide)⟩
  · exact ⟨Nat.le_trans (by decide) low, Nat.le_trans high (by decide)⟩
  · decide

/-- A word character is never blank, so a run of word characters lies inside one
token. -/
theorem isBlank_eq_false_of_isWord {c : Char} (h : isWord c = true) :
    isBlank c = false :=
  have ⟨low, high⟩ := toNat_bounds_of_isWord h
  isBlank_eq_false_of_visible (by omega) (by omega)

end Text
end Reckoner
