import FlowAudit.Proofs.Decimal.Quotient
import FlowAudit.Proofs.Distribution.Curve

set_option autoImplicit false

/-!
Reading a curve at any value. The last step that does not lie above the value has the share of the samples
that do not (`IsCurve.shareUpTo_eq`), so that a curve never falls (`Ecdf.shareUpTo_isShare`).
-/
namespace FlowAudit.Distribution

open FlowAudit.Decimal

/-- Where a test that fails goes on failing, a prefix takes in all items that pass. -/
theorem mem_takeWhile_iff {α : Type} {test : α → Bool} {items : List α}
    (lasting : items.Pairwise fun earlier later => test later = true → test earlier = true)
    {item : α} (inside : item ∈ items) : item ∈ items.takeWhile test ↔ test item = true := by
  induction items with
  | nil => cases inside
  | cons first rest ih =>
    obtain ⟨before, later⟩ := List.pairwise_cons.mp lasting
    rw [List.takeWhile_cons]
    split
    · rename_i passes
      rcases List.mem_cons.mp inside with rfl | deeper
      · simp [passes]
      · rw [List.mem_cons, ih later deeper]
        constructor
        · rintro (rfl | passed)
          · exact passes
          · exact passed
        · exact Or.inr
    · rename_i fails
      rcases List.mem_cons.mp inside with rfl | deeper
      · simpa using fails
      · simp only [List.not_mem_nil, false_iff]
        exact fun passes => fails (before item deeper passes)

namespace IsCurve

variable {samples : List Float} {ecdf : Ecdf} (curve : IsCurve samples ecdf)
  (numbers : AllNumbers samples)

include curve numbers

theorem isNaN_step {step : Step} (inside : step ∈ ecdf.steps.tail) : step.value.isNaN = false :=
  numbers step.value (curve.sampled step inside)

theorem mem_takeWhile_iff {value : Float} (number : value.isNaN = false) {step : Step}
    (inside : step ∈ ecdf.steps.tail) :
    step ∈ ecdf.steps.tail.takeWhile (fun step => step.value ≤ value) ↔
      level step.value ≤ level value := by
  have lasting : ecdf.steps.tail.Pairwise fun earlier later =>
      decide (later.value ≤ value) = true → decide (earlier.value ≤ value) = true := by
    apply curve.ascending.imp_of_mem
    intro earlier later first second below
    have isNumber := curve.isNaN_step numbers first
    have isNumber' := curve.isNaN_step numbers second
    rw [lt_iff_level_lt isNumber isNumber'] at below
    rw [decide_eq_true_iff, decide_eq_true_iff, le_iff_level_le isNumber number,
      le_iff_level_le isNumber' number]
    omega
  rw [Distribution.mem_takeWhile_iff lasting inside, decide_eq_true_iff,
    le_iff_level_le (curve.isNaN_step numbers inside) number]

/-- Each sample stands on a step. -/
theorem exists_level_eq {sample : Float} (inside : sample ∈ samples) :
    ∃ step ∈ ecdf.steps.tail, level step.value = level sample := by
  obtain ⟨step, listed, same⟩ := curve.covers sample inside
  have isNumber := curve.isNaN_step numbers listed
  exact ⟨step, listed, (beq_iff_level_eq isNumber (numbers sample inside)).mp same⟩

/-- The share at a value is that of the samples which do not lie above it. -/
theorem shareUpTo_eq (filled : samples ≠ []) {value : Float} (number : value.isNaN = false) :
    ecdf.shareUpTo value =
      Float.ofNat (countUpTo samples value) / Float.ofNat samples.length := by
  have taken : ∀ step ∈ ecdf.steps.tail,
      step ∈ ecdf.steps.tail.takeWhile (fun step => step.value ≤ value) ↔
        level step.value ≤ level value :=
    fun _ inside => curve.mem_takeWhile_iff numbers number inside
  rw [Ecdf.shareUpTo, countUpTo_eq_countToLevel numbers number]
  generalize shape : ecdf.steps.tail.takeWhile (fun step => step.value ≤ value) = lower at taken ⊢
  cases ends : lower.getLast? with
  | none =>
    obtain rfl := List.getLast?_eq_none_iff.mp ends
    have none : countToLevel samples value = 0 := by
      apply countToLevel_eq_zero
      intro sample inside
      obtain ⟨step, listed, same⟩ := curve.exists_level_eq numbers inside
      have above := (taken step listed).not.mp List.not_mem_nil
      omega
    rw [none, zero_div_ofNat (List.length_pos_of_ne_nil filled)]
    rfl
  | some last =>
    have part : lower.Sublist ecdf.steps.tail := shape ▸ List.takeWhile_sublist _
    have listed : last ∈ ecdf.steps.tail := part.subset (List.mem_of_getLast? ends)
    have reached := (taken last listed).mp (List.mem_of_getLast? ends)
    have highest : ∀ step ∈ lower, level step.value ≤ level last.value := by
      intro step inside
      have ordered : lower.Pairwise fun earlier later => level earlier.value ≤ level later.value := by
        apply (curve.ascending.sublist part).imp_of_mem
        intro earlier later first second below
        have isNumber := curve.isNaN_step numbers (part.subset first)
        have isNumber' := curve.isNaN_step numbers (part.subset second)
        exact Int.le_of_lt ((lt_iff_level_lt isNumber isNumber').mp below)
      have below := ordered.rel_getLast_of_rel_getLast_getLast inside (Int.le_refl _)
      rwa [List.getLast_of_getLast?_eq_some ends] at below
    have same : countToLevel samples value = countToLevel samples last.value := by
      apply List.countP_congr
      intro sample inside
      obtain ⟨step, known, same⟩ := curve.exists_level_eq numbers inside
      have within := taken step known
      have bounded := highest step
      rw [decide_eq_true_iff, decide_eq_true_iff, ← same]
      constructor
      · exact fun below => bounded (within.mpr below)
      · exact fun below => Int.le_trans below reached
    rw [Option.map_some, Option.getD_some, curve.shares last listed,
      countUpTo_eq_countToLevel numbers (curve.isNaN_step numbers listed), same]

end IsCurve

theorem countUpTo_mono {samples : List Float} {value value' : Float} (ordered : value ≤ value')
    (numbers : AllNumbers samples) : countUpTo samples value ≤ countUpTo samples value' := by
  obtain ⟨number, number'⟩ := isNaN_of_le ordered
  rw [le_iff_level_le number number'] at ordered
  apply List.countP_mono_left
  intro sample inside below
  have isNumber := numbers sample inside
  rw [decide_eq_true_iff, le_iff_level_le isNumber number] at below
  rw [decide_eq_true_iff, le_iff_level_le isNumber number']
  exact Int.le_trans below ordered

namespace Ecdf

theorem shareUpTo_of_isNaN (ecdf : Ecdf) {value : Float} (isNaN : value.isNaN = true) :
    ecdf.shareUpTo value = 0 := by
  have none : ecdf.steps.tail.takeWhile (fun step => step.value ≤ value) = [] := by
    cases ecdf.steps.tail with
    | nil => rfl
    | cons first rest =>
      rw [List.takeWhile_cons, if_neg]
      intro below
      have number := (isNaN_of_le (of_decide_eq_true below)).2
      rw [isNaN] at number
      cases number
  rw [shareUpTo, none]
  rfl

/-- A curve has at each value the share of the samples that do not lie above it, and nothing at NaN. It
never falls, as long as the number of samples is a finite double, and at its own steps after the first one
it has their probabilities. -/
theorem shareUpTo_isShare {samples : List Float} (filled : samples ≠ []) (numbers : AllNumbers samples) :
    ∃ ecdf, ofSamples samples = .ok ecdf ∧
      (∀ value, value.isNaN = false → ecdf.shareUpTo value =
        Float.ofNat (countUpTo samples value) / Float.ofNat samples.length) ∧
      (∀ value, countUpTo samples value = 0 → ecdf.shareUpTo value = 0) ∧
      (∀ value, value.isNaN = true → ecdf.shareUpTo value = 0) ∧
      ((Float.ofNat samples.length).isFinite = true →
        ∀ value value', value ≤ value' → ecdf.shareUpTo value ≤ ecdf.shareUpTo value') ∧
      ∀ step ∈ ecdf.steps.tail, ecdf.shareUpTo step.value = step.probability := by
  have positive : 0 < samples.length := List.length_pos_of_ne_nil filled
  have curve := isCurve_ofSorted filled numbers
  have shares : ∀ value : Float, value.isNaN = false → _ :=
    fun _ number => curve.shareUpTo_eq numbers filled number
  refine ⟨_, (ofSamples_eq_ok_iff samples _).mpr ⟨filled, numbers, rfl⟩, shares, ?_, ?_, ?_, ?_⟩
  · intro value none
    cases number : value.isNaN with
    | false => rw [shares value number, none, zero_div_ofNat positive]
    | true => exact shareUpTo_of_isNaN _ number
  · intro value isNaN
    exact shareUpTo_of_isNaN _ isNaN
  · intro finite value value' ordered
    obtain ⟨number, number'⟩ := isNaN_of_le ordered
    rw [shares value number, shares value' number']
    exact ofNat_div_ofNat_le (countUpTo_mono ordered numbers) List.countP_le_length positive finite
  · intro step inside
    rw [shares step.value (curve.isNaN_step numbers inside), curve.shares step inside]

/-- Zeros of either sign count at both of them, and the infinities have places like other values. -/
theorem shareUpTo_of_signed_zeros :
    ∃ ecdf, ofSamples [2, -0.0, 1 / 0, 0.0, 2] = .ok ecdf ∧
      ecdf.shareUpTo (-1 / 0) = 0 ∧ ecdf.shareUpTo (-1) = 0 ∧ ecdf.shareUpTo (-0.0) = 2 / 5 ∧
      ecdf.shareUpTo 0.0 = 2 / 5 ∧ ecdf.shareUpTo 2 = 4 / 5 ∧ ecdf.shareUpTo (1 / 0) = 5 / 5 ∧
      ecdf.shareUpTo (0 / 0) = 0 ∧ ecdf.shareUpTo 1 ≤ ecdf.shareUpTo 2 := by
  obtain ⟨ecdf, success, shares, none, isNaN, growing, _⟩ :=
    @shareUpTo_isShare [2, -0.0, 1 / 0, 0.0, 2] (by simp) (by decide +kernel)
  refine ⟨ecdf, success, none _ (by decide +kernel), none _ (by decide +kernel), ?_, ?_, ?_, ?_,
    isNaN _ (by decide +kernel), growing (by decide +kernel) _ _ (by decide +kernel)⟩
  all_goals
    rw [shares _ (by decide +kernel)]
    decide +kernel

end Ecdf

end FlowAudit.Distribution
