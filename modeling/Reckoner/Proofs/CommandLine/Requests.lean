import Reckoner.CommandLine.Arguments
import Reckoner.Proofs.Results

/-!
# What arguments ask for

A run is never asked for without an expression, and `-v` in front of the arguments of a
run asks for the same run with every detail.
-/

namespace Reckoner
namespace CommandLine

variable {g : Gathered} {a : Arguments} {readings : List Reading} {arguments : List String}

theorem request_eq_run_iff :
    g.request = .run a ↔
      g.extras = [] ∧ g.block.erase "--" ≠ [] ∧ a = ⟨g.block.erase "--", g.verbose⟩ := by
  unfold Gathered.request
  by_cases hextras : g.extras = []
  · by_cases hblock : g.block.erase "--" = []
    · simp [hextras, hblock]
    · simp [hextras, hblock, eq_comm]
  · simp [hextras]

theorem expressions_ne_nil_of_gather (h : gather g readings = .run a) : a.expressions ≠ [] := by
  -- only the request at the end looks at the expressions, whatever was gathered before
  induction readings generalizing g with
  | nil =>
      obtain ⟨-, hblock, rfl⟩ := request_eq_run_iff.mp h
      exact hblock
  | cons reading readings ih =>
      cases reading with
      | plain text => exact ih h
      | unknown text => exact ih h
      | withValue flag value => cases h
      | flags flags =>
          rw [gather] at h
          split at h
          · cases h
          · exact ih h

theorem expressions_ne_nil (h : Request.ofArguments arguments = .run a) : a.expressions ≠ [] := by
  unfold Request.ofArguments at h
  split at h
  · exact expressions_ne_nil_of_gather h
  · cases h

/-! ## Asking for every detail -/

def Gathered.detailed (g : Gathered) : Gathered :=
  { g with verbose := true }

theorem addPlain_detailed (g : Gathered) (text : String) :
    g.detailed.addPlain text = (g.addPlain text).detailed := by
  rw [Gathered.addPlain, Gathered.addPlain, Gathered.detailed]
  split <;> rfl

theorem gather_detailed (h : gather g readings = .run a) :
    gather g.detailed readings = .run ⟨a.expressions, true⟩ := by
  induction readings generalizing g with
  | nil =>
      obtain ⟨hextras, hblock, rfl⟩ := request_eq_run_iff.mp h
      exact request_eq_run_iff.mpr ⟨hextras, hblock, rfl⟩
  | cons reading readings ih =>
      cases reading with
      | plain text =>
          rw [gather, addPlain_detailed]
          exact ih h
      | unknown text => exact ih h
      | withValue flag value => cases h
      | flags flags =>
          rw [gather] at h ⊢
          -- help ends the reading with or without detail
          split at h
          · cases h
          · rw [if_neg ‹_›]
            exact ih h

theorem ofArguments_verbose_cons (h : Request.ofArguments arguments = .run a) :
    Request.ofArguments ("-v" :: arguments) = .run ⟨a.expressions, true⟩ := by
  unfold Request.ofArguments at h
  cases hreadings : readAll arguments with
  | error cause => simp [hreadings] at h
  | ok readings =>
      have hall : readAll ("-v" :: arguments) = .ok (.flags [.verbose] :: readings) := by
        have hv : readArgument "-v" = .ok (.flags [.verbose]) := rfl
        rw [readAll, if_neg (by decide), hv, hreadings]
        rfl
      rw [hreadings] at h
      rw [Request.ofArguments, hall]
      exact gather_detailed h

end CommandLine
end Reckoner
