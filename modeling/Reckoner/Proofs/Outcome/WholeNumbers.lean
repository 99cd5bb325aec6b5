import Reckoner.Proofs.Binary64.Whole
import Reckoner.Proofs.Outcome.LeftToRight

/-!
# Whole results

What is shown for a whole result without a minus sign is itself an expression with that
result, however many digits it has.  Where nothing is divided and neither a number nor
the result of an operation exceeds `2 ^ 53` in size, the result is the one over the
integers, and it is shown as its numeral.
-/

namespace Reckoner

open Infix Postfix

namespace Infix
namespace Phrase

theorem outcomeOf_eq_succeeded (e : Phrase .expression) {text : String}
    (hs : Spells e.tokens text.toList) (hnumber : e.value.isNan = false) :
    outcomeOf text = .succeeded e.value := by
  obtain ⟨m, hrun, hholds⟩ := e.run_postorder Machine.holds_start
  have hstream : toPostfix .standard text =
      .ok (String.ofList (spaced e.written.tree.postorder)) := by
    rw [toPostfix, e.convert_eq hs, map_ok]
  rw [outcomeOf, valueOf_of_evaluate hstream (evaluate_of_run hrun hholds), hnumber,
    if_neg Bool.false_ne_true, Outcome.ofResult]

end Phrase
end Infix

/-! ## Numerals as expressions -/

/-- A whole number with a clear sign is read back from the text that shows it. -/
theorem outcomeOf_resultText {m : Binary64.Magnitude}
    (hwhole : Binary64.unitsPerOne ∣ m.units) :
    outcomeOf (Binary64.finite false m).resultText = .succeeded (.finite false m) := by
  obtain ⟨n, hn⟩ := hwhole
  rw [Nat.mul_comm] at hn
  let e : Phrase .expression := .single (.number (.ofNat n))
  have htext : (Binary64.finite false m).resultText = String.ofList (Nat.toDigits 10 n) :=
    Binary64.resultText_eq_repr (Binary64.whole?_finite false hn)
  have hspells : Spells e.tokens (Binary64.finite false m).resultText.toList := by
    rw [htext, String.toList_ofList, ← List.append_nil (Nat.toDigits 10 n)]
    exact .token (.word (Nat.toDigits 10 n)) .nil
  have hvalue : e.value = .finite false m := by
    change Binary64.ofNat (Nat.ofDigitChars 10 (Nat.toDigits 10 n) 0) = _
    rw [Nat.ofDigitChars_toDigits (by decide) (by decide), Binary64.ofNat, ← hn,
      Binary64.round_units]
  rw [e.outcomeOf_eq_succeeded hspells (hvalue ▸ rfl), hvalue]

/-- The largest finite magnitude, a number of 309 digits. -/
def Binary64.Magnitude.largest : Binary64.Magnitude :=
  ⟨2047 * binade - 1, by decide⟩

theorem outcomeOf_resultText_largest :
    Binary64.unitsPerOne ∣ Binary64.Magnitude.largest.units ∧
      outcomeOf (Binary64.finite false .largest).resultText =
        .succeeded (.finite false .largest) := by
  have hwhole : Binary64.unitsPerOne ∣ Binary64.Magnitude.largest.units :=
    Nat.dvd_of_mod_eq_zero (by decide +kernel)
  exact ⟨hwhole, outcomeOf_resultText hwhole⟩

/-! ## Evaluation over the integers -/

/-- The result over the integers; a quotient has none. -/
def Operation.integer? : Operation → Int → Int → Option Int
  | add, a, b => some (a + b)
  | subtract, a, b => some (a - b)
  | multiply, a, b => some (a * b)
  | divide, _, _ => none

namespace Infix
namespace Phrase

/-- The value over the integers, strictly from left to right, if nothing is divided. -/
def integer? {k : Nonterminal} : Phrase k → Option Int
  | number n => some (Nat.ofDigitChars 10 n.digits 0)
  | group e => e.integer?
  | single first => first.integer?
  | apply before op last => do op.integer? (← before.integer?) (← last.integer?)

/-- The numbers and, over the integers, the results of the operations. -/
def integers {k : Nonterminal} : Phrase k → List Int
  | number n => (number n).integer?.toList
  | group e => e.integers
  | single first => first.integers
  | apply before op last =>
    before.integers ++ last.integers ++ (apply before op last).integer?.toList

end Phrase
end Infix

theorem Operation.whole?_apply {op : Operation} {x y : Binary64} {a b c : Int}
    (hx : x.whole? = some a) (hy : y.whole? = some b) (hc : op.integer? a b = some c)
    (hbound : c.natAbs ≤ 2 ^ 53) : (op.apply x y).whole? = some c := by
  cases op with
  | add =>
      obtain rfl := Option.some.inj hc
      exact Binary64.whole?_add hx hy hbound
  | subtract =>
      obtain rfl := Option.some.inj hc
      exact Binary64.whole?_sub hx hy hbound
  | multiply =>
      obtain rfl := Option.some.inj hc
      exact Binary64.whole?_mul hx hy hbound
  | divide => cases hc

/-- Both operands of every operation are whole, and the bound keeps its result exact. -/
theorem Infix.Phrase.whole?_value {k : Nonterminal} {e : Phrase k} {z : Int}
    (hz : e.integer? = some z) (hbound : ∀ n ∈ e.integers, n.natAbs ≤ 2 ^ 53) :
    e.value.whole? = some z := by
  induction e generalizing z with
  | number n =>
      obtain rfl := Option.some.inj hz
      exact Binary64.whole?_ofNat (hbound _ List.mem_cons_self)
  | group e ih => exact ih hz hbound
  | single first ih => exact ih hz hbound
  | apply before op last ihb ihl =>
      obtain ⟨a, ha, hlast⟩ := Option.bind_eq_some_iff.mp hz
      obtain ⟨b, hb, hop⟩ := Option.bind_eq_some_iff.mp hlast
      rw [integers, hz] at hbound
      have hbefore := ihb ha fun n hn ↦ hbound n (by simp [hn])
      have hafter := ihl hb fun n hn ↦ hbound n (by simp [hn])
      exact Operation.whole?_apply hbefore hafter hop (hbound z (by simp))

/-- Without division, and with all numbers and results within `2 ^ 53`, an expression has
its value over the integers, shown as a plain numeral. -/
theorem outcomeOf_of_integer {e : Phrase .expression} {z : Int} (hz : e.integer? = some z)
    (hbound : ∀ n ∈ e.integers, n.natAbs ≤ 2 ^ 53) {text : String}
    (hs : Spells e.tokens text.toList) :
    ∃ s m, outcomeOf text = .succeeded (.finite s m) ∧
      Binary64.signedUnits s m = z * Binary64.unitsPerOne ∧
      (Binary64.finite s m).resultText = z.repr := by
  have hwhole := e.whole?_value hz hbound
  obtain ⟨s, m, n, hvalue, hunits, rfl⟩ := Binary64.whole?_eq_some_iff.mp hwhole
  rw [hvalue] at hwhole
  refine ⟨s, m, ?_, Binary64.signedUnits_eq s hunits, Binary64.resultText_eq_repr hwhole⟩
  rw [e.outcomeOf_eq_succeeded hs (hvalue ▸ rfl), hvalue]

/-- `(3 - 5) * 4503599627370496 + (0 * (0 - 7))`. -/
def lowestExact : Phrase .expression :=
  .apply (.apply (.single (.group (.apply (.single (.number (.ofNat 3))) .subtract
    (.number (.ofNat 5))))) .multiply (.number (.ofNat 4503599627370496))) .add
    (.group (.apply (.single (.number (.ofNat 0))) .multiply
      (.group (.apply (.single (.number (.ofNat 0))) .subtract (.number (.ofNat 7))))))

theorem outcomeOf_lowestExact :
    lowestExact.integer? = some (-9007199254740992) ∧
      (∀ n ∈ lowestExact.integers, n.natAbs ≤ 2 ^ 53) ∧
      Spells lowestExact.tokens "(3-5) * 4503599627370496 + (0*(0-7))".toList ∧
      ∃ s m, outcomeOf "(3-5) * 4503599627370496 + (0*(0-7))" = .succeeded (.finite s m) ∧
        Binary64.signedUnits s m = -9007199254740992 * Binary64.unitsPerOne ∧
        (Binary64.finite s m).resultText = "-9007199254740992" := by
  have hz : lowestExact.integer? = some (-9007199254740992) := by decide +kernel
  have hbound : ∀ n ∈ lowestExact.integers, n.natAbs ≤ 2 ^ 53 := by decide +kernel
  have htokens : tokens "(3-5) * 4503599627370496 + (0*(0-7))".toList = lowestExact.tokens := by
    decide
  have hs : Spells lowestExact.tokens "(3-5) * 4503599627370496 + (0*(0-7))".toList :=
    htokens ▸ spells_tokens _
  exact ⟨hz, hbound, hs, outcomeOf_of_integer hz hbound hs⟩

end Reckoner
