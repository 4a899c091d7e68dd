import FlowAudit.Proofs.Decimal.Order
import FlowAudit.Verdict.Evaluator

set_option autoImplicit false

/-!
What is asked of settings. Settings have a fault iff they miss a requirement, and then it is that of the
first one they miss (`Settings.fault?_eq_some_iff`). An evaluator has settings that meet all of them
(`Evaluator.met`), among them that the two thresholds of the posterior leave a gap.
-/
namespace FlowAudit.Verdict

open FlowAudit.Decimal

inductive Requirement where
  | unitRange (rate : Rate)
  | finiteDuplicates
  | separation
  deriving DecidableEq, Repr

namespace Requirement

/-- The requirements in the order in which they are looked at. -/
def all : List Requirement :=
  [unitRange .closedLoopBaseRate, unitRange .closedLoopThreshold, unitRange .spoofedThreshold,
    finiteDuplicates, separation]

def Met (settings : Settings) : Requirement → Prop
  | unitRange rate => 0 < settings.rate rate ∧ settings.rate rate < 1
  | finiteDuplicates =>
      0 < settings.duplicateThreshold ∧ settings.duplicateThreshold.isFinite = true
  | separation => settings.spoofedThreshold < settings.closedLoopThreshold

instance (settings : Settings) (requirement : Requirement) : Decidable (requirement.Met settings) := by
  cases requirement <;> unfold Met <;> infer_instance

/-- The fault of settings that miss the requirement. -/
def fault (settings : Settings) : Requirement → SettingsFault
  | unitRange rate => .outOfUnitRange rate (settings.rate rate)
  | finiteDuplicates => .badDuplicateThreshold settings.duplicateThreshold
  | separation => .invertedThresholds settings.spoofedThreshold settings.closedLoopThreshold

def fault? (settings : Settings) (requirement : Requirement) : Option SettingsFault :=
  if requirement.Met settings then none else some (requirement.fault settings)

theorem fault?_eq_none_iff (settings : Settings) (requirement : Requirement) :
    requirement.fault? settings = none ↔ requirement.Met settings := by
  by_cases met : requirement.Met settings <;> simp [fault?, met]

theorem fault?_eq_some_iff (settings : Settings) (requirement : Requirement) (cause : SettingsFault) :
    requirement.fault? settings = some cause ↔
      ¬requirement.Met settings ∧ requirement.fault settings = cause := by
  by_cases met : requirement.Met settings <;> simp [fault?, met]

end Requirement

/-- The first item with a result gives it. -/
theorem findSome?_cons_eq_or {α β : Type} (find? : α → Option β) (item : α) (rest : List α) :
    (item :: rest).findSome? find? = (find? item).or (rest.findSome? find?) := by
  rw [List.findSome?_cons]
  cases find? item <;> rfl

namespace Settings

open Requirement

theorem rateFault?_eq (settings : Settings) (rate : Rate) :
    settings.rateFault? rate = (unitRange rate).fault? settings := by
  simp only [rateFault?, inUnitRange, Requirement.fault?, Met, Bool.and_eq_true, decide_eq_true_eq]
  rfl

theorem duplicateFault?_eq (settings : Settings) :
    settings.duplicateFault? = finiteDuplicates.fault? settings := by
  simp only [duplicateFault?, Requirement.fault?, Met, Bool.and_eq_true, decide_eq_true_eq]
  rfl

/-- Thresholds that are numbers are inverted unless they are in order. -/
theorem orderFault?_eq {settings : Settings} (closedLoop : (unitRange .closedLoopThreshold).Met settings)
    (spoofed : (unitRange .spoofedThreshold).Met settings) :
    settings.orderFault? = separation.fault? settings := by
  have left : settings.spoofedThreshold.isNaN = false := (isNaN_of_lt spoofed.1).2
  have right : settings.closedLoopThreshold.isNaN = false := (isNaN_of_lt closedLoop.1).2
  by_cases ordered : settings.spoofedThreshold < settings.closedLoopThreshold
  · have met : separation.Met settings := ordered
    rw [orderFault?, if_neg (Decimal.not_le_of_lt ordered), Requirement.fault?, if_pos met]
  · have missed : ¬separation.Met settings := ordered
    rw [← Decimal.not_le_iff_lt left right, Decidable.not_not] at ordered
    rw [orderFault?, if_pos ordered, Requirement.fault?, if_neg missed]
    rfl

/-- The order of the thresholds is looked at only if both are in range, so a NaN never comes so far. -/
theorem fault?_eq_findSome? (settings : Settings) :
    settings.fault? = Requirement.all.findSome? (Requirement.fault? settings) := by
  simp only [fault?, rateFault?_eq, duplicateFault?_eq, Requirement.all, findSome?_cons_eq_or,
    List.findSome?_nil, Option.or_none]
  by_cases closedLoop : (unitRange .closedLoopThreshold).Met settings
  · by_cases spoofed : (unitRange .spoofedThreshold).Met settings
    · rw [orderFault?_eq closedLoop spoofed]
    · have missed : (unitRange .spoofedThreshold).fault? settings = some _ := if_neg spoofed
      rw [missed, Option.some_or, Option.some_or]
  · have missed : (unitRange .closedLoopThreshold).fault? settings = some _ := if_neg closedLoop
    rw [missed, Option.some_or, Option.some_or]

theorem fault?_eq_none_iff (settings : Settings) :
    settings.fault? = none ↔ ∀ requirement ∈ Requirement.all, requirement.Met settings := by
  rw [fault?_eq_findSome?, List.findSome?_eq_none_iff]
  simp only [Requirement.fault?_eq_none_iff]

/-- The fault of settings is that of the first requirement they miss. -/
theorem fault?_eq_some_iff (settings : Settings) (cause : SettingsFault) :
    settings.fault? = some cause ↔
      ∃ before requirement after, Requirement.all = before ++ requirement :: after ∧
        (∀ earlier ∈ before, earlier.Met settings) ∧ ¬requirement.Met settings ∧
          requirement.fault settings = cause := by
  rw [fault?_eq_findSome?, List.findSome?_eq_some_iff]
  simp only [Requirement.fault?_eq_none_iff, Requirement.fault?_eq_some_iff]
  exact exists_congr fun before => exists_congr fun requirement => exists_congr fun after =>
    and_congr_right fun _ => and_comm

end Settings

namespace Evaluator

theorem ofSettings_eq_ok_iff (settings : Settings) (evaluator : Evaluator) :
    ofSettings settings = .ok evaluator ↔
      evaluator.settings = settings ∧ evaluator.functions = Elementary.native := by
  unfold ofSettings
  split
  · rename_i known
    have faulty : evaluator.settings ≠ settings := by
      rintro rfl
      have faultless := evaluator.faultless
      rw [known] at faultless
      cases faultless
    simp [faulty]
  · obtain ⟨known, functions, _⟩ := evaluator
    rw [Except.ok.injEq, Evaluator.mk.injEq]
    exact and_congr eq_comm eq_comm

theorem ofSettings_eq_error_iff (settings : Settings) (cause : SettingsFault) :
    ofSettings settings = .error cause ↔ settings.fault? = some cause := by
  unfold ofSettings
  split
  · rename_i known
    rw [known, Except.error.injEq, Option.some.injEq]
  · rename_i known
    simp only [known, reduceCtorEq]

theorem exists_ofSettings_eq_ok_iff (settings : Settings) :
    (∃ evaluator, ofSettings settings = .ok evaluator ∧ evaluator.settings = settings) ↔
      settings.fault? = none := by
  refine ⟨?_, ?_⟩
  · intro ⟨evaluator, _, same⟩
    rw [← same]
    exact Option.isNone_iff_eq_none.mp evaluator.faultless
  · intro faultless
    exact ⟨⟨settings, Elementary.native, Option.isNone_iff_eq_none.mpr faultless⟩,
      (ofSettings_eq_ok_iff settings _).mpr ⟨rfl, rfl⟩, rfl⟩

theorem met (evaluator : Evaluator) (requirement : Requirement) :
    requirement.Met evaluator.settings := by
  have faultless := Option.isNone_iff_eq_none.mp evaluator.faultless
  apply (Settings.fault?_eq_none_iff _).mp faultless
  cases requirement with
  | unitRange rate => cases rate <;> decide
  | finiteDuplicates => decide
  | separation => decide

end Evaluator

end FlowAudit.Verdict
