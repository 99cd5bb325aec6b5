import Reckoner.Log.Logger

/-!
# Settings of the logger

A call that configures the logger goes by the variable as it is at that moment, and by
whether every detail is asked for.  It fixes the level, unless the variable holds one of
the two words that are refused and is looked at.  A logger that only such calls have
touched has one handler at most, so every event it shows is written once.
-/

namespace Reckoner
namespace Log

structure Call where
  /-- The value of the variable, if it is set. -/
  setting? : Option String
  verbose : Bool
deriving DecidableEq

namespace Call

def name (c : Call) : String :=
  capitalized (c.setting?.getD "INFO")

/-- A name of no level means the same as no name. -/
def level (c : Call) : Level :=
  if c.verbose then .debug else (Level.ofName? c.name).getD .info

def Refused (c : Call) : Prop :=
  c.verbose = false ∧ (c.name = "BASIC_FORMAT" ∨ c.name = "_STYLES")

instance : DecidablePred Refused :=
  fun _ ↦ inferInstanceAs (Decidable (_ ∧ _))

variable {c : Call}

theorem ofName?_eq_none_of_refused (h : c.Refused) : Level.ofName? c.name = none := by
  rcases h.2 with hname | hname
  · rw [hname]
    rfl
  · rw [hname]
    rfl

theorem Refused.level_eq (h : c.Refused) : c.level = .info := by
  rw [level, h.1, if_neg Bool.false_ne_true, ofName?_eq_none_of_refused h, Option.getD_none]

theorem isSome_refusal_iff :
    (Refusal.ofName? c.name).isSome = true ↔ c.name = "BASIC_FORMAT" ∨ c.name = "_STYLES" := by
  unfold Refusal.ofName?
  split
  · simp [*]
  · split <;> simp [*]

theorem ofSetting_of_refusal {refusal : Refusal} (hlevel : Level.ofName? c.name = none)
    (h : Refusal.ofName? c.name = some refusal) :
    Level.ofSetting (c.setting?.getD "INFO") = .error refusal := by
  unfold name at hlevel h
  simp only [Level.ofSetting, hlevel, h]

theorem ofSetting_of_none (h : Refusal.ofName? c.name = none) :
    Level.ofSetting (c.setting?.getD "INFO") = .ok ((Level.ofName? c.name).getD .info) := by
  unfold name at h ⊢
  simp only [Level.ofSetting, h]
  cases Level.ofName? (capitalized (c.setting?.getD "INFO")) with
  | none => rfl
  | some level => rfl

theorem requestedLevel_of_refused (h : c.Refused) :
    ∃ refusal, Logger.requestedLevel c.setting? c.verbose = .error refusal := by
  obtain ⟨refusal, hrefusal⟩ := Option.isSome_iff_exists.mp (isSome_refusal_iff.mpr h.2)
  refine ⟨refusal, ?_⟩
  rw [Logger.requestedLevel, h.1, if_neg Bool.false_ne_true]
  exact ofSetting_of_refusal (ofName?_eq_none_of_refused h) hrefusal

theorem requestedLevel_of_not_refused (h : ¬c.Refused) :
    Logger.requestedLevel c.setting? c.verbose = .ok c.level := by
  rw [Logger.requestedLevel, level]
  cases hverbose : c.verbose with
  | true => rfl
  | false =>
      have hname : Refusal.ofName? c.name = none := by
        rw [← Option.not_isSome_iff_eq_none, isSome_refusal_iff]
        exact fun hwords ↦ h ⟨hverbose, hwords⟩
      rw [if_neg Bool.false_ne_true, if_neg Bool.false_ne_true, ofSetting_of_none hname]

theorem not_refused_of_requestedLevel {level : Level}
    (h : Logger.requestedLevel c.setting? c.verbose = .ok level) : ¬c.Refused ∧ level = c.level := by
  by_cases hrefused : c.Refused
  · obtain ⟨refusal, hrefusal⟩ := requestedLevel_of_refused hrefused
    cases hrefusal.symm.trans h
  · exact ⟨hrefused, Except.ok.inj (h.symm.trans (requestedLevel_of_not_refused hrefused))⟩

end Call

/-! ## What is shown -/

/-- Whether an event is shown under a level.  Where the level is not set, that of the root
logger counts. -/
def Level.shows (level : Level) (e : Event) : Bool :=
  decide ((if level = .notSet then warning else level).number ≤ e.level.number)

namespace Logger

/-- The logger with its one handler, set to a level. -/
def configured (level : Level) : Logger :=
  ⟨level, 1, false⟩

@[simp] theorem level_configured (level : Level) : (configured level).level = level := rfl

variable {l : Logger} {c : Call}

theorem written_configured (level : Level) (events : List Event) :
    (configured level).written events = events.filter level.shows := by
  change (events.filter level.shows).flatMap (List.replicate 1) = _
  exact List.flatMap_singleton' _

theorem attach_eq (h : l.handlers ≤ 1) : l.attach = configured l.level := by
  have hone : (if l.handlers = 0 then 1 else l.handlers) = 1 := by
    split
    · rfl
    · omega
  rw [attach, hone]
  rfl

theorem configure_of_not_refused (hl : l.handlers ≤ 1) (h : ¬c.Refused) :
    l.configure c.setting? c.verbose = (configured c.level, .ok ()) := by
  rw [configure, Call.requestedLevel_of_not_refused h, attach_eq hl]
  rfl

theorem configure_of_refused (hl : l.handlers ≤ 1) (h : c.Refused) :
    ∃ refusal, l.configure c.setting? c.verbose = (configured l.level, .error refusal) := by
  obtain ⟨refusal, hrefusal⟩ := Call.requestedLevel_of_refused h
  exact ⟨refusal, by rw [configure, hrefusal, attach_eq hl]⟩

end Logger

end Log
end Reckoner
