import FlowAudit.Proofs.Verdict.Assessment

set_option autoImplicit false

/-!
Settings that are made stricter. Larger minimums and a wider gap between the thresholds of the posterior
can only turn a verdict into none, and a larger duplicate threshold only lets more snapshots through to the
posterior (`Evaluator.tightening_withdraws`).
-/
namespace FlowAudit.Verdict

open FlowAudit.Decimal

namespace Settings

/-- The second settings ask for no fewer packets, and nothing else changes. -/
structure RaisesMinimums (looser tighter : Settings) : Prop where
  droppable : looser.minDroppable ≤ tighter.minDroppable
  dropped : looser.minDropped ≤ tighter.minDropped
  others : tighter = { looser with
    minDroppable := tighter.minDroppable
    minDropped := tighter.minDropped }

/-- The second settings leave a gap between the thresholds that is no smaller at either end. -/
structure WidensGap (looser tighter : Settings) : Prop where
  closedLoop : looser.closedLoopThreshold ≤ tighter.closedLoopThreshold
  spoofed : tighter.spoofedThreshold ≤ looser.spoofedThreshold
  others : tighter = { looser with
    closedLoopThreshold := tighter.closedLoopThreshold
    spoofedThreshold := tighter.spoofedThreshold }

/-- The second settings trust duplicate factors that are no smaller. -/
structure RaisesDuplicates (smaller larger : Settings) : Prop where
  duplicate : smaller.duplicateThreshold ≤ larger.duplicateThreshold
  others : larger = { smaller with duplicateThreshold := larger.duplicateThreshold }

end Settings

/-- The numbers are the same, and the verdict of the second assessment is that of the first or none. -/
structure Assessment.Withdraws (first second : Assessment) : Prop where
  factor : second.duplicateFactor = first.duplicateFactor
  posterior : second.posterior = first.posterior
  verdict : second.classification = first.classification ∨ second.classification = .noDecision

/-- The assessments are the same unless the first one does not trust its duplicate factor. -/
def Assessment.KeepsTrusted (first second : Assessment) : Prop :=
  first.classification = .duplicateExceeded ∨ second = first

namespace Evaluator

variable {first second : Evaluator}

/-- Evaluators with the same minimums differ only behind the duplicate factor. -/
theorem assess_related {related : Assessment → Assessment → Prop} {snapshot : Snapshot}
    (droppable : second.settings.minDroppable = first.settings.minDroppable)
    (dropped : second.settings.minDropped = first.settings.minDropped)
    (undecided : related .undecided .undecided)
    (rated : ∀ factor, duplicateFactor? snapshot = some factor →
      related (first.assessFactor snapshot factor) (second.assessFactor snapshot factor)) :
    related (first.assess snapshot) (second.assess snapshot) := by
  have gates : second.meetsMinimums snapshot = first.meetsMinimums snapshot := by
    rw [meetsMinimums, meetsMinimums, droppable, dropped]
  cases enough : first.meetsMinimums snapshot with
  | false =>
    rw [first.assess_of_below enough, second.assess_of_below (gates.trans enough)]
    exact undecided
  | true =>
    cases known : duplicateFactor? snapshot with
    | none =>
      rw [first.assess_of_unrated known, second.assess_of_unrated known]
      exact undecided
    | some factor =>
      rw [first.assess_of_rated enough known, second.assess_of_rated (gates.trans enough) known]
      exact rated factor known

/-! Minimums -/

theorem meetsMinimums_of_raised (raised : first.settings.RaisesMinimums second.settings)
    {snapshot : Snapshot} (enough : second.meetsMinimums snapshot = true) :
    first.meetsMinimums snapshot = true := by
  rw [meetsMinimums, Bool.and_eq_true, decide_eq_true_eq, decide_eq_true_eq] at enough ⊢
  exact ⟨UInt64.le_trans raised.droppable enough.1, UInt64.le_trans raised.dropped enough.2⟩

theorem assessFactor_of_raised (functions : second.functions = first.functions)
    (raised : first.settings.RaisesMinimums second.settings) (snapshot : Snapshot) (factor : Float) :
    second.assessFactor snapshot factor = first.assessFactor snapshot factor := by
  unfold assessFactor classifyPosterior
  rw [functions, raised.others]

theorem assess_of_raised (functions : second.functions = first.functions)
    (raised : first.settings.RaisesMinimums second.settings) (snapshot : Snapshot) :
    second.assess snapshot = first.assess snapshot ∨ second.assess snapshot = .undecided := by
  cases enough : second.meetsMinimums snapshot with
  | false => exact Or.inr (second.assess_of_below enough)
  | true =>
    cases known : duplicateFactor? snapshot with
    | none => exact Or.inr (second.assess_of_unrated known)
    | some factor =>
      left
      rw [second.assess_of_rated enough known,
        first.assess_of_rated (meetsMinimums_of_raised raised enough) known,
        assessFactor_of_raised functions raised]

/-! Thresholds of the posterior -/

/-- A verdict that is given with the wider gap was given before. -/
theorem classifyPosterior_of_widened (widened : first.settings.WidensGap second.settings) (value : Float) :
    second.classifyPosterior value = first.classifyPosterior value ∨
      second.classifyPosterior value = .noDecision := by
  by_cases above : second.settings.closedLoopThreshold < value
  · have before := Decimal.lt_of_le_of_lt widened.closedLoop above
    exact Or.inl ((second.classifyPosterior_eq_closedLoop_iff.mpr above).trans
      (first.classifyPosterior_eq_closedLoop_iff.mpr before).symm)
  · by_cases below : value < second.settings.spoofedThreshold
    · have before := Decimal.lt_of_lt_of_le below widened.spoofed
      exact Or.inl ((second.classifyPosterior_eq_spoofed_iff.mpr below).trans
        (first.classifyPosterior_eq_spoofed_iff.mpr before).symm)
    · exact Or.inr (second.classifyPosterior_eq_noDecision_iff.mpr ⟨above, below⟩)

theorem assessFactor_of_widened (functions : second.functions = first.functions)
    (widened : first.settings.WidensGap second.settings) (snapshot : Snapshot) (factor : Float) :
    (first.assessFactor snapshot factor).Withdraws (second.assessFactor snapshot factor) := by
  have threshold : second.settings.duplicateThreshold = first.settings.duplicateThreshold := by
    rw [widened.others]
  have base : second.settings.closedLoopBaseRate = first.settings.closedLoopBaseRate := by
    rw [widened.others]
  by_cases exceeded : first.settings.duplicateThreshold < factor
  · rw [first.assessFactor_of_exceeded exceeded, second.assessFactor_of_exceeded (threshold ▸ exceeded)]
    exact ⟨rfl, rfl, Or.inl rfl⟩
  · rw [assessFactor, assessFactor, threshold, base, functions, if_neg exceeded, if_neg exceeded]
    exact ⟨rfl, rfl, classifyPosterior_of_widened widened _⟩

theorem assess_of_widened (functions : second.functions = first.functions)
    (widened : first.settings.WidensGap second.settings) (snapshot : Snapshot) :
    (first.assess snapshot).Withdraws (second.assess snapshot) := by
  apply assess_related
  · rw [widened.others]
  · rw [widened.others]
  · exact ⟨rfl, rfl, Or.inl rfl⟩
  · intro factor _
    exact assessFactor_of_widened functions widened snapshot factor

/-! The duplicate threshold -/

/-- A duplicate factor that is trusted with the smaller threshold is trusted with the larger one. -/
theorem assessFactor_of_trusted (functions : second.functions = first.functions)
    (raised : first.settings.RaisesDuplicates second.settings) (snapshot : Snapshot) {factor : Float}
    (trusted : ¬first.settings.duplicateThreshold < factor) :
    second.assessFactor snapshot factor = first.assessFactor snapshot factor := by
  have trusted' : ¬second.settings.duplicateThreshold < factor :=
    fun above => trusted (Decimal.lt_of_le_of_lt raised.duplicate above)
  rw [assessFactor, assessFactor, if_neg trusted, if_neg trusted']
  unfold classifyPosterior
  rw [functions, raised.others]

theorem assess_of_raisedDuplicates (functions : second.functions = first.functions)
    (raised : first.settings.RaisesDuplicates second.settings) (snapshot : Snapshot) :
    (first.assess snapshot).KeepsTrusted (second.assess snapshot) := by
  apply assess_related
  · rw [raised.others]
  · rw [raised.others]
  · exact Or.inr rfl
  · intro factor _
    by_cases exceeded : first.settings.duplicateThreshold < factor
    · left
      rw [first.assessFactor_of_exceeded exceeded]
    · exact Or.inr (assessFactor_of_trusted functions raised snapshot exceeded)

/-- Larger minimums leave an assessment as it is or take it back. A wider gap between the thresholds of the
posterior keeps the numbers and takes back verdicts, but turns none into its opposite. Where a duplicate
factor is trusted, a larger duplicate threshold changes nothing. -/
theorem tightening_withdraws (functions : second.functions = first.functions) :
    (first.settings.RaisesMinimums second.settings → ∀ snapshot,
      second.assess snapshot = first.assess snapshot ∨ second.assess snapshot = .undecided) ∧
    (first.settings.WidensGap second.settings → ∀ snapshot,
      (first.assess snapshot).Withdraws (second.assess snapshot) ∧
      ¬((first.assess snapshot).classification = .closedLoop ∧
        (second.assess snapshot).classification = .spoofed) ∧
      ¬((first.assess snapshot).classification = .spoofed ∧
        (second.assess snapshot).classification = .closedLoop)) ∧
    (first.settings.RaisesDuplicates second.settings → ∀ snapshot,
      ((first.assess snapshot).classification ≠ .duplicateExceeded →
        second.assess snapshot = first.assess snapshot) ∧
      ((second.assess snapshot).classification = .duplicateExceeded →
        (first.assess snapshot).classification = .duplicateExceeded)) := by
  refine ⟨?_, ?_, ?_⟩
  · intro raised snapshot
    exact assess_of_raised functions raised snapshot
  · intro widened snapshot
    have withdraws := assess_of_widened functions widened snapshot
    refine ⟨withdraws, ?_, ?_⟩
    all_goals
      intro ⟨before, after⟩
      have verdict := withdraws.verdict
      rw [before, after] at verdict
      simp at verdict
  · intro raised snapshot
    have trusted := assess_of_raisedDuplicates functions raised snapshot
    refine ⟨fun unexceeded => trusted.resolve_left unexceeded, ?_⟩
    intro exceeded
    rcases trusted with before | same
    · exact before
    · exact same ▸ exceeded

/-- Larger minimums and a wider gap take back a verdict just above its threshold, and a larger duplicate
threshold keeps it. -/
theorem tightening_of_close_evidence :
    let functions : Elementary :=
      ⟨fun base exponent => if exponent == 0 then 1 else base, fun _ => 0, fun _ => 1⟩
    let stock : Evaluator := ⟨{}, functions, by decide⟩
    let sparing : Evaluator := ⟨{ minDroppable := 201 }, functions, by decide⟩
    let careful : Evaluator :=
      ⟨{ closedLoopThreshold := 0.995, spoofedThreshold := 0.005 }, functions, by decide⟩
    let trusting : Evaluator := ⟨{ duplicateThreshold := 0.25 }, functions, by decide⟩
    (stock.classify ⟨200, 50, 1, 0, 1⟩ = .closedLoop ∧
      (sparing.assess ⟨200, 50, 1, 0, 1⟩ = stock.assess ⟨200, 50, 1, 0, 1⟩ ∨
        sparing.assess ⟨200, 50, 1, 0, 1⟩ = .undecided) ∧
      careful.classify ⟨200, 50, 1, 0, 1⟩ = .noDecision ∧
      (stock.assess ⟨200, 50, 1, 0, 1⟩).Withdraws (careful.assess ⟨200, 50, 1, 0, 1⟩) ∧
      trusting.assess ⟨200, 50, 1, 0, 1⟩ = stock.assess ⟨200, 50, 1, 0, 1⟩) := by
  intro functions stock sparing careful trusting
  have raised : stock.settings.RaisesMinimums sparing.settings := ⟨by decide, by decide, rfl⟩
  have widened : stock.settings.WidensGap careful.settings := ⟨by decide, by decide, rfl⟩
  have trusts : stock.settings.RaisesDuplicates trusting.settings := ⟨by decide, rfl⟩
  have sparingly := (@tightening_withdraws stock sparing rfl).1 raised ⟨200, 50, 1, 0, 1⟩
  have carefully := (@tightening_withdraws stock careful rfl).2.1 widened ⟨200, 50, 1, 0, 1⟩
  have trustingly := (@tightening_withdraws stock trusting rfl).2.2 trusts ⟨200, 50, 1, 0, 1⟩
  exact ⟨by decide +kernel, sparingly, by decide +kernel, carefully.1, trustingly.1 (by decide +kernel)⟩

end Evaluator

end FlowAudit.Verdict
