import FlowAudit.Proofs.Verdict.Settings

set_option autoImplicit false

/-!
What an assessment is made from. The minimums are looked at first, then the undropped packets, then the
duplicate factor, and the posterior last (`Evaluator.exists_of_posterior_eq_some`); so an assessment depends
on no counter that the earlier ones make void (`Evaluator.assess_reads_evidence`). The thresholds of the
posterior leave a gap, hence their order does not matter (`Evaluator.classifyPosterior_eq_swapped`).
-/
namespace FlowAudit.Verdict

open FlowAudit.Decimal

/-! The duplicate factor -/

theorem toNat_sub_of_lt {first second : UInt64} (below : second < first) :
    (first - second).toNat = first.toNat - second.toNat :=
  UInt64.toNat_sub_of_le first second (UInt64.le_of_lt below)

/-- The factor is the quotient of two counts, and the difference is that of the natural numbers. -/
theorem duplicateFactor?_of_lt {snapshot : Snapshot} (undropped : snapshot.dropped < snapshot.droppable) :
    duplicateFactor? snapshot = some (
      (UInt64.ofNat (max snapshot.duplicate.toNat 1)).toFloat /
        (UInt64.ofNat (snapshot.droppable.toNat - snapshot.dropped.toNat)).toFloat) := by
  have difference : UInt64.ofNat (snapshot.droppable.toNat - snapshot.dropped.toNat) =
      snapshot.droppable - snapshot.dropped := by
    rw [← toNat_sub_of_lt undropped, UInt64.ofNat_toNat]
  have duplicates : UInt64.ofNat (max snapshot.duplicate.toNat 1) =
      if snapshot.duplicate = 0 then 1 else snapshot.duplicate := by
    by_cases none : snapshot.duplicate = 0
    · rw [if_pos none, none]
      rfl
    · have some : snapshot.duplicate.toNat ≠ 0 := fun zero => none (UInt64.toNat_inj.mp zero)
      have most : max snapshot.duplicate.toNat 1 = snapshot.duplicate.toNat := by omega
      rw [if_neg none, most, UInt64.ofNat_toNat]
  rw [duplicateFactor?, if_pos undropped, difference, duplicates]

theorem duplicateFactor?_eq_none_iff (snapshot : Snapshot) :
    duplicateFactor? snapshot = none ↔ snapshot.droppable ≤ snapshot.dropped := by
  by_cases undropped : snapshot.dropped < snapshot.droppable
  · simp [duplicateFactor?_of_lt undropped, UInt64.not_le.mpr undropped]
  · simp [duplicateFactor?, undropped, UInt64.not_lt.mp undropped]

theorem exists_of_duplicateFactor?_eq_some {snapshot : Snapshot} {factor : Float}
    (rated : duplicateFactor? snapshot = some factor) :
    ∃ duplicates undropped : UInt64,
      duplicates.toNat = max snapshot.duplicate.toNat 1 ∧
      undropped.toNat + snapshot.dropped.toNat = snapshot.droppable.toNat ∧
      factor = duplicates.toFloat / undropped.toFloat := by
  by_cases undropped : snapshot.dropped < snapshot.droppable
  · rw [duplicateFactor?_of_lt undropped, Option.some.injEq] at rated
    have bound := snapshot.duplicate.toNat_lt
    have bound' := snapshot.droppable.toNat_lt
    have below := UInt64.lt_iff_toNat_lt.mp undropped
    have exact : ∀ count, count < 2 ^ 64 → (UInt64.ofNat count).toNat = count :=
      fun _ small => Nat.mod_eq_of_lt small
    refine ⟨_, _, exact _ (by omega), ?_, rated.symm⟩
    rw [exact _ (by omega)]
    omega
  · rw [(duplicateFactor?_eq_none_iff snapshot).mpr (UInt64.not_lt.mp undropped)] at rated
    cases rated

/-- Of two snapshots the counters that the duplicate factor is made from agree. -/
structure Snapshot.SameRate (first second : Snapshot) : Prop where
  undropped : first.dropped < first.droppable
  undropped' : second.dropped < second.droppable
  difference : first.droppable.toNat - first.dropped.toNat =
    second.droppable.toNat - second.dropped.toNat
  duplicates : max first.duplicate.toNat 1 = max second.duplicate.toNat 1

theorem Snapshot.SameRate.duplicateFactor?_eq {first second : Snapshot} (same : first.SameRate second) :
    duplicateFactor? first = duplicateFactor? second := by
  rw [duplicateFactor?_of_lt same.undropped, duplicateFactor?_of_lt same.undropped', same.difference,
    same.duplicates]

namespace Evaluator

variable (evaluator : Evaluator) {snapshot : Snapshot} {factor value : Float}

/-! Gates -/

theorem meetsMinimums_eq_false_iff (snapshot : Snapshot) :
    evaluator.meetsMinimums snapshot = false ↔
      snapshot.droppable < evaluator.settings.minDroppable ∨
        snapshot.dropped < evaluator.settings.minDropped := by
  rw [meetsMinimums, Bool.and_eq_false_iff, decide_eq_false_iff_not, decide_eq_false_iff_not,
    UInt64.not_le, UInt64.not_le]

theorem assess_of_below (below : evaluator.meetsMinimums snapshot = false) :
    evaluator.assess snapshot = .undecided := by
  rw [assess, if_neg (Bool.eq_false_iff.mp below)]

theorem assess_of_unrated (unrated : duplicateFactor? snapshot = none) :
    evaluator.assess snapshot = .undecided := by
  rw [assess, unrated]
  exact ite_self _

theorem assess_of_rated (enough : evaluator.meetsMinimums snapshot = true)
    (rated : duplicateFactor? snapshot = some factor) :
    evaluator.assess snapshot = evaluator.assessFactor snapshot factor := by
  rw [assess, if_pos enough, rated]

theorem assessFactor_of_exceeded (exceeded : evaluator.settings.duplicateThreshold < factor) :
    evaluator.assessFactor snapshot factor = ⟨.duplicateExceeded, some factor, none⟩ :=
  if_pos exceeded

/-- Behind the last gate only two counters are read. -/
theorem assessFactor_congr {first second : Snapshot}
    (notSeen : first.notSeenDropped = second.notSeenDropped)
    (retransmitted : first.retransmittedDropped = second.retransmittedDropped) (factor : Float) :
    evaluator.assessFactor first factor = evaluator.assessFactor second factor := by
  rw [assessFactor, assessFactor, notSeen, retransmitted]

/-- A posterior comes from a snapshot that passed all gates. -/
theorem exists_of_posterior_eq_some (tested : (evaluator.assess snapshot).posterior = some value) :
    ∃ factor, duplicateFactor? snapshot = some factor ∧
      ¬evaluator.settings.duplicateThreshold < factor ∧
      value = posterior evaluator.functions evaluator.settings.closedLoopBaseRate
        snapshot.notSeenDropped factor snapshot.retransmittedDropped ∧
      evaluator.assess snapshot = ⟨evaluator.classifyPosterior value, some factor, some value⟩ := by
  cases enough : evaluator.meetsMinimums snapshot with
  | false =>
    rw [evaluator.assess_of_below enough] at tested
    cases tested
  | true =>
    cases rated : duplicateFactor? snapshot with
    | none =>
      rw [evaluator.assess_of_unrated rated] at tested
      cases tested
    | some factor =>
      rw [evaluator.assess_of_rated enough rated] at tested ⊢
      by_cases exceeded : evaluator.settings.duplicateThreshold < factor
      · rw [evaluator.assessFactor_of_exceeded exceeded] at tested
        cases tested
      · rw [assessFactor, if_neg exceeded] at tested ⊢
        cases tested
        exact ⟨factor, rfl, exceeded, rfl, rfl⟩

/-- Below a minimum nothing else counts, and neither does it without undropped packets. Of the others only
the difference, the duplicates as at least one, and behind the duplicate gate two more counters are read.
The difference is that of the natural numbers, whatever the counters. -/
theorem assess_reads_evidence :
    (∀ snapshot : Snapshot,
      snapshot.droppable < evaluator.settings.minDroppable ∨
        snapshot.dropped < evaluator.settings.minDropped →
      evaluator.assess snapshot = .undecided) ∧
    (∀ first second, evaluator.meetsMinimums first = true → evaluator.meetsMinimums second = true →
      (first.droppable ≤ first.dropped → second.droppable ≤ second.dropped →
        evaluator.assess first = .undecided ∧ evaluator.assess second = .undecided) ∧
      (first.SameRate second →
        (first.notSeenDropped = second.notSeenDropped →
          first.retransmittedDropped = second.retransmittedDropped →
          evaluator.assess first = evaluator.assess second) ∧
        ∀ factor, duplicateFactor? first = some factor →
          evaluator.settings.duplicateThreshold < factor →
          evaluator.assess first = evaluator.assess second)) ∧
    ∀ snapshot,
      (duplicateFactor? snapshot = none ↔ snapshot.droppable ≤ snapshot.dropped) ∧
      ∀ factor, duplicateFactor? snapshot = some factor →
        ∃ duplicates undropped : UInt64,
          duplicates.toNat = max snapshot.duplicate.toNat 1 ∧
          undropped.toNat + snapshot.dropped.toNat = snapshot.droppable.toNat ∧
          factor = duplicates.toFloat / undropped.toFloat := by
  refine ⟨?_, ?_, ?_⟩
  · intro snapshot below
    exact evaluator.assess_of_below ((evaluator.meetsMinimums_eq_false_iff snapshot).mpr below)
  · intro first second enough enough'
    refine ⟨?_, ?_⟩
    · intro unrated unrated'
      exact ⟨evaluator.assess_of_unrated ((duplicateFactor?_eq_none_iff first).mpr unrated),
        evaluator.assess_of_unrated ((duplicateFactor?_eq_none_iff second).mpr unrated')⟩
    · intro same
      have factors := same.duplicateFactor?_eq
      refine ⟨?_, ?_⟩
      · intro notSeen retransmitted
        have rated := duplicateFactor?_of_lt same.undropped
        rw [evaluator.assess_of_rated enough rated, evaluator.assess_of_rated enough' (factors ▸ rated),
          evaluator.assessFactor_congr notSeen retransmitted]
      · intro factor rated exceeded
        rw [evaluator.assess_of_rated enough rated, evaluator.assess_of_rated enough' (factors ▸ rated),
          evaluator.assessFactor_of_exceeded exceeded, evaluator.assessFactor_of_exceeded exceeded]
  · intro snapshot
    refine ⟨duplicateFactor?_eq_none_iff snapshot, ?_⟩
    intro factor rated
    exact exists_of_duplicateFactor?_eq_some rated

/-- The counters reach their limits, and one snapshot of each pair has no duplicates. -/
theorem assess_of_extreme_counters :
    let evaluator : Evaluator := ⟨{ minDroppable := 2 }, Elementary.native, by decide⟩
    evaluator.assess ⟨1, 0, 18446744073709551615, 9, 9⟩ = .undecided ∧
      evaluator.assess ⟨2, 18446744073709551615, 1, 2, 3⟩ = .undecided ∧
      evaluator.assess ⟨100, 50, 0, 3, 4⟩ =
        evaluator.assess ⟨18446744073709551615, 18446744073709551565, 1, 3, 4⟩ ∧
      evaluator.assess ⟨2, 1, 0, 7, 0⟩ =
        evaluator.assess ⟨18446744073709551615, 18446744073709551614, 1, 0, 18446744073709551615⟩ := by
  intro evaluator
  obtain ⟨below, pairs, _⟩ := evaluator.assess_reads_evidence
  refine ⟨below _ (by decide), ?_, ?_, ?_⟩
  · exact ((pairs ⟨2, 18446744073709551615, 1, 2, 3⟩ ⟨2, 2, 0, 0, 0⟩ (by decide) (by decide)).1
      (by decide) (by decide)).1
  · exact ((pairs _ _ (by decide) (by decide)).2 ⟨by decide, by decide, by decide, by decide⟩).1 rfl rfl
  · exact ((pairs _ _ (by decide) (by decide)).2 ⟨by decide, by decide, by decide, by decide⟩).2 _ rfl
      (by decide +kernel)

/-! Verdicts on posteriors -/

theorem classifyPosterior_eq_closedLoop_iff :
    evaluator.classifyPosterior value = .closedLoop ↔
      evaluator.settings.closedLoopThreshold < value := by
  unfold classifyPosterior
  by_cases above : evaluator.settings.closedLoopThreshold < value
  · simp [above]
  · by_cases below : value < evaluator.settings.spoofedThreshold <;> simp [above, below]

/-- No value lies above the one threshold and below the other. -/
theorem not_below_of_above (above : evaluator.settings.closedLoopThreshold < value) :
    ¬value < evaluator.settings.spoofedThreshold := by
  intro below
  have gap : evaluator.settings.spoofedThreshold < evaluator.settings.closedLoopThreshold :=
    evaluator.met .separation
  have inside := Decimal.lt_of_le_of_lt (Decimal.le_of_lt below) gap
  exact Decimal.not_le_of_lt above (Decimal.le_of_lt inside)

theorem classifyPosterior_eq_spoofed_iff :
    evaluator.classifyPosterior value = .spoofed ↔ value < evaluator.settings.spoofedThreshold := by
  unfold classifyPosterior
  by_cases above : evaluator.settings.closedLoopThreshold < value
  · simp [above, evaluator.not_below_of_above above]
  · by_cases below : value < evaluator.settings.spoofedThreshold <;> simp [above, below]

theorem classifyPosterior_eq_noDecision_iff :
    evaluator.classifyPosterior value = .noDecision ↔
      ¬evaluator.settings.closedLoopThreshold < value ∧
        ¬value < evaluator.settings.spoofedThreshold := by
  unfold classifyPosterior
  by_cases above : evaluator.settings.closedLoopThreshold < value
  · simp [above]
  · by_cases below : value < evaluator.settings.spoofedThreshold <;> simp [above, below]

/-- The verdict on a posterior would be the same if the thresholds were tested the other way round. -/
theorem classifyPosterior_eq_swapped (value : Float) :
    evaluator.classifyPosterior value =
      if value < evaluator.settings.spoofedThreshold then .spoofed
      else if evaluator.settings.closedLoopThreshold < value then .closedLoop
      else .noDecision := by
  unfold classifyPosterior
  by_cases above : evaluator.settings.closedLoopThreshold < value
  · rw [if_pos above, if_neg (evaluator.not_below_of_above above), if_pos above]
  · rw [if_neg above, if_neg above]

/-- Settings are taken iff they meet all requirements, and refused for the first one they miss. With
settings that are taken, one verdict at most can be true of a posterior, and that is the verdict given. -/
theorem ofSettings_separates_verdicts :
    (∀ settings,
      ((∃ evaluator, ofSettings settings = .ok evaluator ∧ evaluator.settings = settings) ↔
        ∀ requirement ∈ Requirement.all, requirement.Met settings) ∧
      ∀ cause, ofSettings settings = .error cause ↔
        ∃ before requirement after, Requirement.all = before ++ requirement :: after ∧
          (∀ earlier ∈ before, earlier.Met settings) ∧ ¬requirement.Met settings ∧
            requirement.fault settings = cause) ∧
    ∀ (evaluator : Evaluator) snapshot value,
      (evaluator.assess snapshot).posterior = some value →
      ¬(evaluator.settings.closedLoopThreshold < value ∧
        value < evaluator.settings.spoofedThreshold) ∧
      ((evaluator.assess snapshot).classification = .closedLoop ↔
        evaluator.settings.closedLoopThreshold < value) ∧
      ((evaluator.assess snapshot).classification = .spoofed ↔
        value < evaluator.settings.spoofedThreshold) ∧
      ((evaluator.assess snapshot).classification = .noDecision ↔
        ¬evaluator.settings.closedLoopThreshold < value ∧
          ¬value < evaluator.settings.spoofedThreshold) ∧
      (evaluator.assess snapshot).classification =
        if value < evaluator.settings.spoofedThreshold then .spoofed
        else if evaluator.settings.closedLoopThreshold < value then .closedLoop
        else .noDecision := by
  refine ⟨?_, ?_⟩
  · intro settings
    refine ⟨?_, ?_⟩
    · rw [exists_ofSettings_eq_ok_iff, settings.fault?_eq_none_iff]
    · intro cause
      rw [ofSettings_eq_error_iff, settings.fault?_eq_some_iff]
  · intro evaluator snapshot value tested
    obtain ⟨factor, _, _, _, assessed⟩ := evaluator.exists_of_posterior_eq_some tested
    have verdict : (evaluator.assess snapshot).classification = evaluator.classifyPosterior value := by
      rw [assessed]
    rw [verdict]
    exact ⟨fun ⟨above, below⟩ => evaluator.not_below_of_above above below,
      evaluator.classifyPosterior_eq_closedLoop_iff, evaluator.classifyPosterior_eq_spoofed_iff,
      evaluator.classifyPosterior_eq_noDecision_iff, evaluator.classifyPosterior_eq_swapped value⟩

/-- The posterior is exactly the upper threshold, which it does not exceed. -/
theorem verdict_of_posterior_at_threshold :
    let functions : Elementary :=
      ⟨fun base exponent => if exponent == 0 then 1 else base, fun _ => 0, fun _ => 1⟩
    let evaluator : Evaluator := ⟨{}, functions, by decide⟩
    (evaluator.assess ⟨149, 50, 1, 0, 1⟩).posterior = some 0.99 ∧
      (evaluator.assess ⟨149, 50, 1, 0, 1⟩).classification = .noDecision := by
  intro functions evaluator
  have tested : (evaluator.assess ⟨149, 50, 1, 0, 1⟩).posterior = some 0.99 := by decide +kernel
  refine ⟨tested, ?_⟩
  obtain ⟨_, _, _, undecided, _⟩ := ofSettings_separates_verdicts.2 evaluator _ _ tested
  exact undecided.mpr (by decide +kernel)

end Evaluator

end FlowAudit.Verdict
