import Reckoner.Outcome.Basic
import Reckoner.Proofs.Infix.Grammar

/-!
# The outcome of a well-formed expression

Conversion and evaluation together give a well-formed expression the value of its
derivation.
-/

namespace Reckoner

open Infix Postfix

theorem valueOf_eq (expression : String) :
    valueOf expression =
      ((toPostfix .standard expression).mapError .unreadable >>= fun stream ↦
        (evaluate stream).mapError .unevaluable >>= fun value ↦
          if value.isNan then .error .notANumber else .ok value) := rfl

theorem valueOf_of_evaluate {expression stream : String} {value : Binary64}
    (hstream : toPostfix .standard expression = .ok stream)
    (hvalue : evaluate stream = .ok value) :
    valueOf expression = if value.isNan then .error .notANumber else .ok value := by
  rw [valueOf_eq, hstream]
  change (evaluate stream).mapError _ >>= _ = _
  rw [hvalue]
  rfl

/-- A well-formed expression is evaluated strictly from left to right. -/
theorem outcomeOf_of_spells (e : Phrase .expression) {text : String}
    (hs : Spells e.tokens text.toList) :
    outcomeOf text =
      if e.value.isNan then .failed "Invalid Expression" else .succeeded e.value := by
  have hstream : toPostfix .standard text =
      .ok (String.ofList (spaced e.written.tree.postorder)) := by
    rw [toPostfix, e.convert_eq hs, map_ok]
  obtain ⟨m, hrun, hholds⟩ := e.run_postorder Machine.holds_start
  have hvalue : evaluate (String.ofList (spaced e.written.tree.postorder)) = .ok e.value :=
    evaluate_of_run hrun hholds
  rw [outcomeOf, valueOf_of_evaluate hstream hvalue]
  split <;> rfl

/-- `(7+5)*4/2 - 3`, with blanks. -/
def sampleExpression : Phrase .expression :=
  .apply (.apply (.apply (.single (.group (.apply (.single (.number (.ofNat 7))) .add
    (.number (.ofNat 5))))) .multiply (.number (.ofNat 4))) .divide
    (.number (.ofNat 2))) .subtract (.number (.ofNat 3))

theorem outcomeOf_sampleExpression :
    Spells sampleExpression.tokens " (7+5) *4/2 - 3".toList ∧
      outcomeOf " (7+5) *4/2 - 3" = .succeeded (.ofNat 21) := by
  have htokens : tokens " (7+5) *4/2 - 3".toList = sampleExpression.tokens := by decide
  have hspells : Spells sampleExpression.tokens " (7+5) *4/2 - 3".toList :=
    htokens ▸ spells_tokens _
  have hvalue : sampleExpression.value = .ofNat 21 := by decide +kernel
  have hnumber : (Binary64.ofNat 21).isNan = false := by decide +kernel
  refine ⟨hspells, ?_⟩
  rw [outcomeOf_of_spells sampleExpression hspells, hvalue, hnumber,
    if_neg Bool.false_ne_true]

end Reckoner
