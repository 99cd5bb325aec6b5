import Reckoner.Decimal.Numeral
import Reckoner.Decimal.Reading
import Reckoner.Proofs.Decimal.Significant

/-!
# Reading what was written

A decimal that is written positionally or with a power of ten is read as a decimal of the
same value, since padding zeros, the point and the exponent together only move its
significant digits to their place.
-/

namespace Reckoner
namespace Decimal

variable {l : Layout} {d : Decimal} {digits whole fraction tail text : List Char} {e : ℤ}

/-! ## The parts of a numeral -/

theorem isDigit_of_mem_toDigits (n : Nat) : ∀ c ∈ Nat.toDigits 10 n, c.isDigit = true :=
  fun _ ↦ Nat.isDigit_of_mem_toDigits (by decide) (by decide)

theorem notMem_of_isDigit {c : Char} (hc : c.isDigit = false)
    (hdigits : ∀ d ∈ digits, d.isDigit = true) : c ∉ digits :=
  fun hmem ↦ Bool.false_ne_true (hc.symm.trans (hdigits c hmem))

theorem zero_isDigit : Char.isDigit '0' = true :=
  rfl

/-- What ends a numeral: nothing, which counts as the exponent zero, or an exponent. -/
def IsTail (tail : List Char) (e : ℤ) : Prop :=
  (tail = [] ∧ e = 0) ∨ tail = exponentText e

theorem isTail_nil : IsTail [] 0 :=
  .inl ⟨rfl, rfl⟩

theorem isTail_exponentText (e : ℤ) : IsTail (exponentText e) e :=
  .inr rfl

theorem readExponent?_cons (hne : digits ≠ []) (hdigits : ∀ c ∈ digits, c.isDigit = true)
    (hvalue : Nat.ofDigitChars 10 digits 0 = e.natAbs) :
    readExponent? ('e' :: (if e < 0 then '-' else '+') :: digits) = some e := by
  have hall := List.all_eq_true.mpr hdigits
  by_cases hneg : e < 0
  · rw [if_pos hneg, readExponent?, readSign]
    dsimp only
    rw [if_pos ⟨.inl rfl, hne, hall⟩, hvalue, if_pos rfl]
    congr 1
    omega
  · rw [if_neg hneg, readExponent?, readSign]
    dsimp only
    rw [if_pos ⟨.inl rfl, hne, hall⟩, hvalue, if_neg (by decide)]
    congr 1
    omega

theorem readExponent?_exponentText (e : ℤ) : readExponent? (exponentText e) = some e := by
  have hdigits := isDigit_of_mem_toDigits e.natAbs
  rw [exponentText]
  by_cases hshort : (Nat.toDigits 10 e.natAbs).length < 2
  · -- a single digit is padded with a zero, which changes no number
    rw [if_pos hshort]
    exact readExponent?_cons (List.cons_ne_nil '0' _) (List.forall_mem_cons.mpr ⟨rfl, hdigits⟩)
      (Nat.ofDigitChars_cons.trans Nat.ofDigitChars_ten_toDigits)
  · rw [if_neg hshort]
    exact readExponent?_cons Nat.toDigits_ne_nil hdigits Nat.ofDigitChars_ten_toDigits

theorem IsTail.readExponent? (h : IsTail tail e) : readExponent? tail = some e := by
  rcases h with ⟨rfl, rfl⟩ | rfl
  · rfl
  · exact readExponent?_exponentText e

theorem IsTail.takeWhile (h : IsTail tail e) : tail.takeWhile Char.isDigit = [] := by
  rcases h with ⟨rfl, rfl⟩ | rfl <;> rfl

theorem IsTail.dropWhile (h : IsTail tail e) : tail.dropWhile Char.isDigit = tail := by
  rcases h with ⟨rfl, rfl⟩ | rfl <;> rfl

theorem IsTail.readFraction (h : IsTail tail e) : readFraction tail = ([], tail) := by
  rcases h with ⟨rfl, rfl⟩ | rfl <;> rfl

/-! ## Numerals -/

/-- `text` is a numeral with a digit first, perhaps a fraction, and `tail` at its end, and
denotes the decimal. -/
inductive IsNumeral (tail : List Char) : List Char → Decimal → Prop
  | whole {whole : List Char} {e : ℤ} (hwhole : ∀ c ∈ whole, c.isDigit = true)
      (hne : whole ≠ []) (htail : IsTail tail e) :
      IsNumeral tail (whole ++ tail) ⟨Nat.ofDigitChars 10 whole 0, e⟩
  | point {whole fraction : List Char} {e : ℤ} (hwhole : ∀ c ∈ whole, c.isDigit = true)
      (hne : whole ≠ []) (hfraction : ∀ c ∈ fraction, c.isDigit = true) (htail : IsTail tail e) :
      IsNumeral tail (whole ++ '.' :: (fraction ++ tail))
        ⟨Nat.ofDigitChars 10 (whole ++ fraction) 0, e - fraction.length⟩

theorem IsNumeral.read? (h : IsNumeral tail text d) : read? text = some d := by
  cases h with
  | whole hwhole hne htail =>
      rw [Decimal.read?, List.takeWhile_append_of_pos hwhole, List.dropWhile_append_of_pos hwhole,
        htail.takeWhile, htail.dropWhile, htail.readFraction]
      dsimp only
      rw [List.append_nil, if_neg fun h ↦ hne h.1, htail.readExponent?, List.append_nil]
      simp
  | point hwhole hne hfraction htail =>
      rw [Decimal.read?, List.takeWhile_append_of_pos hwhole, List.dropWhile_append_of_pos hwhole,
        List.takeWhile_cons_of_neg (by decide), List.dropWhile_cons_of_neg (by decide),
        Decimal.readFraction, List.takeWhile_append_of_pos hfraction,
        List.dropWhile_append_of_pos hfraction, htail.takeWhile, htail.dropWhile]
      dsimp only
      rw [List.append_nil, List.append_nil, if_neg fun h ↦ hne h.1, htail.readExponent?]
      rfl

theorem IsNumeral.exists_eq_cons (h : IsNumeral tail text d) :
    ∃ c rest, text = c :: rest ∧ c.isDigit = true := by
  cases h with
  | whole hwhole hne | point hwhole hne =>
      obtain ⟨c, digits, rfl⟩ := List.exists_cons_of_ne_nil hne
      exact ⟨c, _, rfl, hwhole c List.mem_cons_self⟩

theorem IsNumeral.e_mem_iff (h : IsNumeral tail text d) : 'e' ∈ text ↔ 'e' ∈ tail := by
  have hletter : Char.isDigit 'e' = false := rfl
  cases h with
  | whole hwhole => simp [notMem_of_isDigit hletter hwhole]
  | point hwhole _ hfraction =>
      simp [notMem_of_isDigit hletter hwhole, notMem_of_isDigit hletter hfraction]

theorem isNumeral_toDigits (n : Nat) : IsNumeral [] (Nat.toDigits 10 n) ⟨n, 0⟩ := by
  have hnumeral := IsNumeral.whole (isDigit_of_mem_toDigits n) Nat.toDigits_ne_nil isTail_nil
  rwa [List.append_nil, Nat.ofDigitChars_ten_toDigits] at hnumeral

/-! ## Positional and scientific numerals -/

theorem forall_mem_replicate_zero (k : Nat) : ∀ c ∈ List.replicate k '0', c.isDigit = true :=
  fun _ hc ↦ List.eq_of_mem_replicate hc ▸ zero_isDigit

/-- The fractional part that a layout adds to whole numbers does not change them. -/
theorem isNumeral_wholeEnding (hl : l.wholeEnding = [] ∨ l.wholeEnding = ['.', '0'])
    (hwhole : ∀ c ∈ whole, c.isDigit = true) (hne : whole ≠ []) :
    ∃ d, IsNumeral [] (whole ++ l.wholeEnding) d ∧ d.value = Nat.ofDigitChars 10 whole 0 := by
  rcases hl with hl | hl <;> rw [hl]
  · refine ⟨_, .whole hwhole hne isTail_nil, ?_⟩
    rw [value, zpow_zero, mul_one]
  · have hnumeral := IsNumeral.point hwhole hne (List.forall_mem_singleton.mpr zero_isDigit)
      isTail_nil
    have hzero : Nat.ofDigitChars 10 (whole ++ ['0']) 0 = 10 * Nat.ofDigitChars 10 whole 0 :=
      Nat.ofDigitChars_append 0
    refine ⟨_, hnumeral, ?_⟩
    rw [value, hzero, List.length_singleton, Nat.cast_one, zero_sub, zpow_neg_one, Nat.cast_mul,
      Nat.cast_ofNat, mul_comm, inv_mul_cancel_left₀ (by norm_num)]

theorem isNumeral_plainText (hl : l.wholeEnding = [] ∨ l.wholeEnding = ['.', '0'])
    (hdigits : ∀ c ∈ digits, c.isDigit = true) (hne : digits ≠ []) (e : ℤ) :
    ∃ d, IsNumeral [] (plainText l digits e) d ∧
      d.value = Nat.ofDigitChars 10 digits 0 * 10 ^ (e + 1 - digits.length) := by
  rw [plainText]
  split
  · next hneg =>
      have hnumeral := IsNumeral.point (List.forall_mem_singleton.mpr zero_isDigit)
        (List.cons_ne_nil '0' [])
        (List.forall_mem_append.mpr ⟨forall_mem_replicate_zero (-e - 1).toNat, hdigits⟩) isTail_nil
      have hzero : Nat.ofDigitChars 10 ['0'] 0 = 0 := rfl
      rw [List.append_nil] at hnumeral
      refine ⟨_, hnumeral, ?_⟩
      rw [value, ← List.append_assoc, Nat.ofDigitChars_append, Nat.ofDigitChars_append,
        Nat.ofDigitChars_replicate_zero, hzero, Nat.mul_zero, List.length_append,
        List.length_replicate]
      dsimp only
      congr 2
      omega
  · next hnonneg =>
      dsimp only
      split
      · next hlength =>
          -- the zeros after the digits multiply them by the missing power of ten
          have hwhole := List.forall_mem_append.mpr
            ⟨hdigits, forall_mem_replicate_zero (e.toNat + 1 - digits.length)⟩
          obtain ⟨d, hnumeral, hvalue⟩ :=
            isNumeral_wholeEnding hl hwhole (List.append_ne_nil_of_left_ne_nil hne _)
          have hexponent : e + 1 - digits.length = (e.toNat + 1 - digits.length : Nat) := by omega
          refine ⟨d, hnumeral, ?_⟩
          rw [hvalue, Nat.ofDigitChars_append, Nat.ofDigitChars_replicate_zero, hexponent,
            zpow_natCast, Nat.cast_mul, Nat.cast_pow, Nat.cast_ofNat, mul_comm]
      · next hlength =>
          rw [← List.take_append_drop (e.toNat + 1) digits] at hdigits
          obtain ⟨hwhole, hfraction⟩ := List.forall_mem_append.mp hdigits
          have hne' : digits.take (e.toNat + 1) ≠ [] := by simpa using hne
          have hnumeral := IsNumeral.point hwhole hne' hfraction isTail_nil
          rw [List.append_nil, List.take_append_drop, List.length_drop] at hnumeral
          refine ⟨_, hnumeral, ?_⟩
          rw [value]
          dsimp only
          congr 2
          omega

theorem isNumeral_scientificText (hdigits : ∀ c ∈ digits, c.isDigit = true) (hne : digits ≠ [])
    (e : ℤ) :
    ∃ d, IsNumeral (exponentText e) (scientificText digits e) d ∧
      d.value = Nat.ofDigitChars 10 digits 0 * 10 ^ (e + 1 - digits.length) := by
  match digits with
  | [] => exact absurd rfl hne
  | [c] =>
      refine ⟨_, .whole hdigits hne (isTail_exponentText e), ?_⟩
      rw [value, List.length_singleton, Nat.cast_one, add_sub_cancel_right]
  | first :: second :: rest =>
      obtain ⟨hfirst, hrest⟩ := List.forall_mem_cons.mp hdigits
      refine ⟨_, .point (List.forall_mem_singleton.mpr hfirst) (List.cons_ne_nil first [])
        hrest (isTail_exponentText e), ?_⟩
      rw [value]
      dsimp only
      congr 2
      simp only [List.length_cons]
      omega

/-- What is written denotes the value, with an exponent where it is not positional. -/
theorem isNumeral_text (hl : l.wholeEnding = [] ∨ l.wholeEnding = ['.', '0'])
    (hd : d.coefficient ≠ 0) :
    ∃ tail d', IsNumeral tail (l.text d) d' ∧ d'.value = d.value ∧
      ('e' ∈ tail ↔ ¬(l.plainFrom ≤ d.firstExponent ∧ d.firstExponent < l.plainBelow)) := by
  obtain ⟨n, e, -, hdigits, hvalue, hceiling⟩ := exists_significand hd
  have hall := isDigit_of_mem_toDigits n
  have hexponent : d.firstExponent + 1 - (Nat.toDigits 10 n).length = e := by
    rw [firstExponent, hceiling, digitCount]
    omega
  have hplain := isNumeral_plainText hl hall Nat.toDigits_ne_nil d.firstExponent
  have hscientific := isNumeral_scientificText hall Nat.toDigits_ne_nil d.firstExponent
  rw [hexponent, Nat.ofDigitChars_ten_toDigits, ← hvalue] at hplain hscientific
  rw [Layout.text, hdigits]
  split
  · next hrange =>
      obtain ⟨d', hnumeral, hvalue'⟩ := hplain
      exact ⟨_, d', hnumeral, hvalue', iff_of_false List.not_mem_nil (not_not_intro hrange)⟩
  · next hrange =>
      obtain ⟨d', hnumeral, hvalue'⟩ := hscientific
      exact ⟨_, d', hnumeral, hvalue', iff_of_true List.mem_cons_self hrange⟩

theorem e_mem_scientificText (digits : List Char) (e : ℤ) : 'e' ∈ scientificText digits e := by
  match digits with
  | [] => exact List.mem_cons_self
  | [_] => exact List.mem_append_right _ List.mem_cons_self
  | first :: second :: rest =>
      exact List.mem_append_right (first :: '.' :: second :: rest) List.mem_cons_self

/-- A layout whose whole numbers keep a point marks every number as a fraction. -/
theorem point_or_e_mem_text (hl : '.' ∈ l.wholeEnding) (d : Decimal) :
    '.' ∈ l.text d ∨ 'e' ∈ l.text d := by
  rw [Layout.text]
  split
  · left
    rw [plainText]
    split
    · exact List.mem_cons_of_mem _ List.mem_cons_self
    · dsimp only
      split
      · exact List.mem_append_right _ hl
      · exact List.mem_append_right _ List.mem_cons_self
  · exact .inr (e_mem_scientificText _ _)

/-- The exponent of the first digit is read off the value. -/
theorem le_firstExponent_iff (hd : d.coefficient ≠ 0) (k : ℤ) :
    k ≤ d.firstExponent ↔ (10 : ℚ) ^ k ≤ d.value := by
  constructor
  · intro h
    exact (ten_zpow_le h).trans (ten_zpow_le_value hd)
  · intro h
    have hlt := (zpow_lt_zpow_iff_right₀ (by norm_num : (1 : ℚ) < 10)).mp
      (h.trans_lt d.value_lt_ceiling)
    exact Int.le_sub_one_of_lt hlt

end Decimal

namespace Binary64

variable {tail text : List Char} {d : Decimal} {c : Char}

theorem toLower_of_isDigit (h : c.isDigit = true) : c.toLower = c := by
  refine dif_neg ?_
  rintro ⟨hle, -⟩
  have hdigit := (Char.isDigit_iff_toNat.mp h).2
  exact absurd (Nat.le_trans (UInt32.le_iff_toNat_le.mp hle) hdigit) (by decide)

theorem readSign_signText (s : Bool) {rest : List Char} (h : c.isDigit = true) :
    readSign (signText s ++ c :: rest) = (s, c :: rest) := by
  cases s with
  | true => rfl
  | false =>
      have hne : ∀ c', c'.isDigit = false → c ≠ c' := by
        rintro c' h' rfl
        exact Bool.false_ne_true (h'.symm.trans h)
      refine readSign.eq_3 _ (fun _ heq ↦ ?_) fun _ heq ↦ ?_
      · exact hne '-' rfl (List.cons.inj heq).1
      · exact hne '+' rfl (List.cons.inj heq).1

/-- A numeral, which starts with a digit, is not the name of a number. -/
theorem read?_signText (s : Bool) (h : Decimal.IsNumeral tail text d) :
    read? (signText s ++ text) = some (ofDecimal s d) := by
  obtain ⟨c, rest, rfl, hc⟩ := h.exists_eq_cons
  have hname : ∀ (c' : Char) (name : List Char), c'.isDigit = false →
      (c :: rest).map Char.toLower ≠ c' :: name := by
    intro c' name hc' heq
    rw [List.map_cons, toLower_of_isDigit hc, List.cons.injEq] at heq
    exact Bool.false_ne_true (hc'.symm.trans (heq.1 ▸ hc))
  have hinfinity : ¬((c :: rest).map Char.toLower = "inf".toList ∨
      (c :: rest).map Char.toLower = "infinity".toList) :=
    not_or_intro (hname 'i' _ rfl) (hname 'i' _ rfl)
  have hnan : (c :: rest).map Char.toLower ≠ "nan".toList := hname 'n' _ rfl
  rw [read?, readSign_signText s hc]
  dsimp only
  rw [if_neg hinfinity, if_neg hnan, h.read?, Option.map_some]

end Binary64
end Reckoner
