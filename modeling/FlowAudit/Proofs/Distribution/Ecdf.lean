import FlowAudit.Distribution.Group
import FlowAudit.Proofs.Attempts
import Mathlib.Data.List.Sort

set_option autoImplicit false

/-!
Distributions of numbers. A list of samples has a distribution when it is not empty and holds no NaN
(`ofSamples_eq_ok_iff`); of several NaNs the first is reported (`ofSamples_eq_error_iff`). The samples are
put in order by the bits of the doubles, which tell zeros of either sign apart, so that the distribution is
the same whatever order they come in (`distribution_congr`).
-/
namespace FlowAudit.Distribution

/-- No sample is NaN. -/
def AllNumbers (samples : List Float) : Prop :=
  ∀ sample ∈ samples, sample.isNaN = false

instance (samples : List Float) : Decidable (AllNumbers samples) :=
  inferInstanceAs (Decidable (∀ sample ∈ samples, sample.isNaN = false))

/-- How samples fail to have a distribution: there are none, or one is NaN and none before it is. -/
def HasFault (samples : List Float) : SampleError → Prop
  | .empty => samples = []
  | .nan index => ∃ before value after, samples = before ++ value :: after ∧ AllNumbers before ∧
      before.length = index ∧ value.isNaN = true

theorem AllNumbers.perm {first second : List Float} (numbers : AllNumbers first)
    (same : first.Perm second) : AllNumbers second := by
  intro sample inside
  exact numbers sample (same.mem_iff.mpr inside)

theorem toBits_injective {first second : Float} (same : first.toBits = second.toBits) :
    first = second := by
  obtain ⟨⟨bits, valid⟩⟩ := first
  obtain ⟨⟨bits', valid'⟩⟩ := second
  obtain rfl : bits = bits' := same
  rfl

/-- Doubles of one rank have the same bits. -/
theorem rank_injective {first second : Float} (same : rank first = rank second) :
    first = second := by
  apply toBits_injective
  apply UInt64.toNat_inj.mp
  simp only [rank] at same
  split at same <;> split at same <;> omega

theorem pairwise_sorted (samples : List Float) :
    (sorted samples).Pairwise fun earlier later => rank earlier ≤ rank later :=
  List.pairwise_mergeSort' (fun earlier later => rank earlier ≤ rank later) samples

theorem sorted_perm (samples : List Float) : (sorted samples).Perm samples :=
  List.mergeSort_perm samples _

theorem sorted_eq_of_perm {first second : List Float} (same : first.Perm second) :
    sorted first = sorted second := by
  refine List.Perm.eq_of_pairwise ?_ (pairwise_sorted first) (pairwise_sorted second)
    ((sorted_perm first).trans (same.trans (sorted_perm second).symm))
  intro earlier later _ _ below above
  exact rank_injective (Int.le_antisymm below above)

theorem findIdx?_isNaN_eq_some_iff (samples : List Float) (index : Nat) :
    samples.findIdx? Float.isNaN = some index ↔ HasFault samples (.nan index) := by
  constructor
  · intro found
    obtain ⟨bound, isNaN, earlier⟩ := List.findIdx?_eq_some_iff_getElem.mp found
    refine ⟨samples.take index, samples[index], samples.drop (index + 1), ?_, ?_, ?_, isNaN⟩
    · rw [List.getElem_cons_drop, List.take_append_drop]
    · intro sample inside
      obtain ⟨place, before, rfl⟩ := List.mem_take_iff_getElem.mp inside
      simpa using earlier place (by omega)
    · rw [List.length_take]
      omega
  · rintro ⟨before, value, after, rfl, numbers, rfl, isNaN⟩
    have none : before.findIdx? Float.isNaN = none := List.findIdx?_eq_none_iff.mpr numbers
    rw [List.findIdx?_append, none, List.findIdx?_cons, if_pos isNaN]
    simp

namespace Ecdf

theorem ofSamples_nil : ofSamples [] = .error .empty := rfl

theorem ofSamples_eq_ok_iff (samples : List Float) (ecdf : Ecdf) :
    ofSamples samples = .ok ecdf ↔
      samples ≠ [] ∧ AllNumbers samples ∧ ofSorted (sorted samples) = ecdf := by
  unfold ofSamples
  split
  · rename_i none
    simp [List.isEmpty_iff.mp none]
  · rename_i some
    have filled : samples ≠ [] := fun none => some (List.isEmpty_iff.mpr none)
    split
    · rename_i index found
      obtain ⟨before, value, after, whole, _, _, isNaN⟩ :=
        (findIdx?_isNaN_eq_some_iff _ _).mp found
      have other : ¬AllNumbers samples := by
        intro numbers
        rw [numbers value (by simp [whole])] at isNaN
        cases isNaN
      simp [other]
    · rename_i numbers
      have numbers : AllNumbers samples := List.findIdx?_eq_none_iff.mp numbers
      simp [filled, numbers]

theorem ofSamples_eq_error_iff (samples : List Float) (cause : SampleError) :
    ofSamples samples = .error cause ↔ HasFault samples cause := by
  unfold ofSamples
  split
  · rename_i none
    obtain rfl := List.isEmpty_iff.mp none
    cases cause <;> simp [HasFault]
  · rename_i some
    have filled : samples ≠ [] := fun none => some (List.isEmpty_iff.mpr none)
    cases cause with
    | empty => split <;> simp [HasFault, filled]
    | nan index =>
      rw [← findIdx?_isNaN_eq_some_iff]
      split
      · rename_i found
        simp [found]
      · rename_i numbers
        simp [numbers]

theorem exists_nan_of_not_allNumbers {samples : List Float} (other : ¬AllNumbers samples) :
    ∃ index, ofSamples samples = .error (.nan index) := by
  cases result : ofSamples samples with
  | ok ecdf => exact absurd ((ofSamples_eq_ok_iff samples ecdf).mp result).2.1 other
  | error cause =>
    cases cause with
    | empty =>
      obtain rfl : samples = [] := (ofSamples_eq_error_iff samples .empty).mp result
      exact absurd (List.forall_mem_nil _) other
    | nan index => exact ⟨index, rfl⟩

/-- The order in which numbers were collected leaves no mark on their curve. -/
theorem ofSamples_congr {first second : List Float} (numbers : AllNumbers first)
    (same : first.Perm second) : ofSamples first = ofSamples second := by
  by_cases filled : first = []
  · subst filled
    rw [List.nil_perm.mp same]
  · have other : second ≠ [] := by
      rintro rfl
      exact filled (List.perm_nil.mp same)
    rw [(ofSamples_eq_ok_iff first _).mpr ⟨filled, numbers, rfl⟩,
      (ofSamples_eq_ok_iff second _).mpr ⟨other, numbers.perm same, rfl⟩, sorted_eq_of_perm same]

theorem exists_isNaN_of_eq_error {samples : List Float} {index : Nat}
    (failure : ofSamples samples = .error (.nan index)) :
    ∃ sample ∈ samples, sample.isNaN = true := by
  obtain ⟨before, value, after, rfl, _, _, isNaN⟩ := (ofSamples_eq_error_iff _ _).mp failure
  exact ⟨value, by simp, isNaN⟩

end Ecdf

namespace SampleGroup

/-- The distribution of a group whose samples are numbers. -/
def curve (group : SampleGroup) : GroupEcdf :=
  ⟨group.label, group.samples.length, Ecdf.ofSorted (sorted group.samples)⟩

theorem distribution_eq_ok_iff (group : SampleGroup) (result : GroupEcdf) :
    group.distribution = .ok result ↔
      group.samples ≠ [] ∧ AllNumbers group.samples ∧ group.curve = result := by
  constructor
  · intro success
    unfold distribution at success
    split at success
    · rename_i ecdf found
      obtain ⟨filled, numbers, rfl⟩ := (Ecdf.ofSamples_eq_ok_iff _ _).mp found
      exact ⟨filled, numbers, Except.ok.inj success⟩
    · cases success
    · cases success
  · rintro ⟨filled, numbers, rfl⟩
    rw [distribution, (Ecdf.ofSamples_eq_ok_iff _ _).mpr ⟨filled, numbers, rfl⟩]
    rfl

theorem distribution_of_empty {group : SampleGroup} (empty : group.samples = []) :
    group.distribution = .error (.emptyGroup group.label) := by
  rw [distribution, empty, Ecdf.ofSamples_nil]

theorem exists_isNaN_of_eq_error {group : SampleGroup} {index : Nat}
    (failure : group.distribution = .error (.nan index)) :
    ∃ sample ∈ group.samples, sample.isNaN = true := by
  unfold distribution at failure
  split at failure
  · cases failure
  · cases failure
  · rename_i cause
    exact Ecdf.exists_isNaN_of_eq_error cause

theorem distribution_congr {first second : SampleGroup} (numbers : AllNumbers first.samples)
    (label : first.label = second.label) (same : first.samples.Perm second.samples) :
    first.distribution = second.distribution := by
  rw [distribution, distribution, Ecdf.ofSamples_congr numbers same, label, same.length_eq]

/-- The same samples under the same label, in any order. -/
def Reordered (first second : SampleGroup) : Prop :=
  first.label = second.label ∧ first.samples.Perm second.samples

theorem allNumbers_of_reordered {first second : List SampleGroup}
    (same : List.Forall₂ Reordered first second) (numbers : ∀ group ∈ first, AllNumbers group.samples) :
    ∀ group ∈ second, AllNumbers group.samples := by
  induction same with
  | nil => exact numbers
  | cons here later ih =>
    have parts := List.forall_mem_cons.mp numbers
    exact List.forall_mem_cons.mpr ⟨parts.1.perm here.2, ih parts.2⟩

end SampleGroup

/-- Distributions fail with the failure of one of the groups. -/
theorem exists_of_distributions_eq_error {groups : List SampleGroup} {cause : GroupError}
    (failure : distributions groups = .error cause) :
    ∃ group ∈ groups, group.distribution = .error cause := by
  obtain ⟨before, group, after, rfl, _, failed⟩ := mapM_eq_error_iff.mp failure
  exact ⟨group, List.mem_append_right before List.mem_cons_self, failed⟩

theorem exists_error_of_not_allNumbers {groups : List SampleGroup}
    (other : ¬∀ group ∈ groups, AllNumbers group.samples) :
    ∃ cause, distributions groups = .error cause := by
  cases result : distributions groups with
  | ok results =>
    refine absurd ?_ other
    intro group inside
    obtain ⟨_, _, succeeds⟩ := exists_of_mapM_eq_ok result inside
    exact ((group.distribution_eq_ok_iff _).mp succeeds).2.1
  | error cause => exact ⟨cause, rfl⟩

/-- Numbers have one curve whatever order they come in, to the bits of its values and probabilities, and
with a NaN among them there is none in any order. -/
theorem distributions_ignore_order :
    (∀ first second : List Float, first.Perm second →
      (AllNumbers first → Ecdf.ofSamples first = Ecdf.ofSamples second) ∧
      (¬AllNumbers first → (∃ index, Ecdf.ofSamples first = .error (.nan index)) ∧
        ∃ index, Ecdf.ofSamples second = .error (.nan index))) ∧
    ∀ first second : List SampleGroup, List.Forall₂ SampleGroup.Reordered first second →
      ((∀ group ∈ first, AllNumbers group.samples) → distributions first = distributions second) ∧
      ((¬∀ group ∈ first, AllNumbers group.samples) →
        (∃ cause, distributions first = .error cause) ∧
        ∃ cause, distributions second = .error cause) := by
  constructor
  · intro first second same
    refine ⟨fun numbers => Ecdf.ofSamples_congr numbers same, fun other => ⟨?_, ?_⟩⟩
    · exact Ecdf.exists_nan_of_not_allNumbers other
    · exact Ecdf.exists_nan_of_not_allNumbers fun numbers => other (numbers.perm same.symm)
  · intro first second same
    refine ⟨fun numbers => ?_, fun other => ⟨exists_error_of_not_allNumbers other, ?_⟩⟩
    · apply mapM_congr_of_forall₂
      refine forall₂_imp_of_mem ?_ same
      rintro group inside group' ⟨label, reordered⟩
      exact SampleGroup.distribution_congr (numbers group inside) label reordered
    · have back : List.Forall₂ SampleGroup.Reordered second first :=
        List.Forall₂.flip (same.imp fun _ _ alike => ⟨alike.1.symm, alike.2.symm⟩)
      exact exists_error_of_not_allNumbers fun numbers =>
        other (SampleGroup.allNumbers_of_reordered back numbers)

/-- The zeros of either sign change places, then a NaN with a number. -/
theorem distributions_of_swapped_zeros :
    Ecdf.ofSamples [0.0, 1, -0.0] = Ecdf.ofSamples [-0.0, 0.0, 1] ∧
    (∃ index, Ecdf.ofSamples [0 / 0, 1] = .error (.nan index)) ∧
    (∃ index, Ecdf.ofSamples [1, 0 / 0] = .error (.nan index)) ∧
    distributions [⟨"idle", [2]⟩, ⟨"busy", [0.0, 1, -0.0]⟩] =
      distributions [⟨"idle", [2]⟩, ⟨"busy", [-0.0, 0.0, 1]⟩] ∧
    ∃ cause, distributions [⟨"busy", [1, 0 / 0]⟩] = .error cause := by
  obtain ⟨samples, groups⟩ := distributions_ignore_order
  have zeros : [0.0, 1, -0.0].Perm [-0.0, 0.0, (1 : Float)] := by decide +kernel
  have swapped : [0 / 0, 1].Perm [1, (0 / 0 : Float)] := .swap ..
  obtain ⟨first, second⟩ := (samples _ _ swapped).2 (by decide +kernel)
  have alike : List.Forall₂ SampleGroup.Reordered
      [⟨"idle", [2]⟩, ⟨"busy", [0.0, 1, -0.0]⟩] [⟨"idle", [2]⟩, ⟨"busy", [-0.0, 0.0, 1]⟩] :=
    .cons ⟨rfl, .refl _⟩ (.cons ⟨rfl, zeros⟩ .nil)
  have spoilt : List.Forall₂ SampleGroup.Reordered [⟨"busy", [0 / 0, 1]⟩] [⟨"busy", [1, 0 / 0]⟩] :=
    .cons ⟨rfl, swapped⟩ .nil
  exact ⟨(samples _ _ zeros).1 (by decide +kernel), first, second,
    (groups _ _ alike).1 (by decide +kernel), ((groups _ _ spoilt).2 (by decide +kernel)).2⟩

end FlowAudit.Distribution
