import Reckoner.Proofs.Decimal.General
import Reckoner.Proofs.Postfix.Holding

/-!
# Values that are left over

An evaluation that ends with more than one value fails with an error that lists what is
left, from bottom to top.  Each finite number other than zero is shown there with six
digits, correctly rounded.
-/

namespace Reckoner
namespace Postfix

open Binary64

theorem evaluate_eq_remainingOperands {stream : String} {last : Machine}
    {values : Stack Binary64} (hrun : Machine.start.run stream.toList = .ok last)
    (hsettle : last.settle = .ok values) (htwo : 2 ≤ values.size) :
    evaluate stream = .error (.remainingOperands stream values.toList) := by
  rw [evaluate, hrun, ok_bind, hsettle, ok_bind]
  exact answer_of_two_le stream htwo

/-- What is left over is listed from bottom to top.  The text of a finite number other than
zero has its sign and denotes the nearest of all decimals with six digits, in general
notation and without zeros at the end of a fraction. -/
theorem leftovers_rounded :
    (∀ (stream : String) (last : Machine) (values : Stack Binary64),
      Machine.start.run stream.toList = .ok last → last.settle = .ok values → 2 ≤ values.size →
        ∃ error, evaluate stream = .error error ∧
          error.message = "Invalid expression (remaining operands): " ++ stream ++
            ", stack: " ++ ", ".intercalate (values.toList.map sixDigitText)) ∧
      ∀ (s : Bool) (m : Magnitude), m.isZero = false →
        IsSixDigitNumeral s m (finite s m).sixDigitText.toList := by
  refine ⟨fun stream last values hrun hsettle htwo ↦ ?_, fun s m hm ↦ ?_⟩
  · exact ⟨_, evaluate_eq_remainingOperands hrun hsettle htwo, rfl⟩
  · exact isSixDigitNumeral_sixDigitText s hm

/-- Halfway between two decimals of six digits the carry makes the even one, a power of ten
that is no longer positional. -/
theorem leftovers_rounded_carry :
    (∃ last, Machine.start.run "_ 9 9 9 9 9 9 5 _ 1 _ 8 /".toList = .ok last ∧
      last.settle = .ok ⟨[(ofNat 1).div (ofNat 8), ofNat 9999995]⟩ ∧
      ∃ error, evaluate "_ 9 9 9 9 9 9 5 _ 1 _ 8 /" = .error error ∧
        error.message = "Invalid expression (remaining operands): _ 9 9 9 9 9 9 5 _ 1 _ 8 /" ++
          ", stack: 1e+07, 0.125") ∧
      ofNat 9999995 = finite false ⟨0x416312CF60000000, by decide⟩ ∧
      IsSixDigitNumeral false ⟨0x416312CF60000000, by decide⟩ "1e+07".toList ∧
      IsSixDigitNumeral true ⟨0x3EE4F8B588E368F1, by decide⟩ "-1e-05".toList := by
  obtain ⟨hmessage, hshown⟩ := leftovers_rounded
  have hrun : Machine.start.run "_ 9 9 9 9 9 9 5 _ 1 _ 8 /".toList =
      .ok ⟨⟨[(ofNat 1).div (ofNat 8), ofNat 9999995]⟩, none⟩ := by decide +kernel
  have htexts : ", ".intercalate ([ofNat 9999995, (ofNat 1).div (ofNat 8)].map sixDigitText) =
      "1e+07, 0.125" := by decide +kernel
  have hcarry : (finite false ⟨0x416312CF60000000, by decide⟩).sixDigitText.toList =
      "1e+07".toList := by decide +kernel
  have hsmall : (finite true ⟨0x3EE4F8B588E368F1, by decide⟩).sixDigitText.toList =
      "-1e-05".toList := by decide +kernel
  refine ⟨⟨_, hrun, rfl, ?_⟩, by decide +kernel, ?_, ?_⟩
  · obtain ⟨error, herror, htext⟩ := hmessage _ _ _ hrun rfl (by decide)
    refine ⟨error, herror, htext.trans ?_⟩
    change _ ++ ", ".intercalate ([ofNat 9999995, (ofNat 1).div (ofNat 8)].map sixDigitText) = _
    rw [htexts]
    decide
  · exact hcarry ▸ hshown false _ rfl
  · exact hsmall ▸ hshown true _ rfl

end Postfix
end Reckoner
