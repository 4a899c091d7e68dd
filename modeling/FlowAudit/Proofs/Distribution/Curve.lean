import FlowAudit.Proofs.Decimal.Order
import FlowAudit.Proofs.Distribution.Ecdf
import Mathlib.Data.List.Pairwise

set_option autoImplicit false

/-!
The curve of a list of samples. Its values are the samples without repetitions, ascending, and beside each
stands the share of the samples that are not above it (`Ecdf.ofSamples_isCurve`). The samples are sorted by
rank and parted into runs by equality of doubles; both go by levels, where zeros of either sign are one.
-/
namespace FlowAudit.Distribution

open FlowAudit.Decimal

/-- The number of samples that are not above a value. -/
def countUpTo (samples : List Float) (value : Float) : Nat :=
  samples.countP fun sample => sample ≤ value

/-- The curve starts at the least sample with probability zero. Then come the samples, each number once,
with the share of those up to it. -/
structure IsCurve (samples : List Float) (ecdf : Ecdf) : Prop where
  start : ∃ least ∈ samples, ecdf.steps.head? = some ⟨least, 0⟩ ∧ ∀ sample ∈ samples, least ≤ sample
  ascending : ecdf.steps.tail.Pairwise fun earlier later => earlier.value < later.value
  sampled : ∀ step ∈ ecdf.steps.tail, step.value ∈ samples
  covers : ∀ sample ∈ samples, ∃ step ∈ ecdf.steps.tail, step.value == sample
  shares : ∀ step ∈ ecdf.steps.tail,
    step.probability = Float.ofNat (countUpTo samples step.value) / Float.ofNat samples.length
  growing : ecdf.steps.tail.Pairwise fun earlier later =>
    countUpTo samples earlier.value < countUpTo samples later.value
  whole : ∃ last, ecdf.steps.tail.getLast? = some last ∧
    countUpTo samples last.value = samples.length

/-! Steps -/

theorem level_le_of_rank_le {first second : Float} (ordered : rank first ≤ rank second) :
    level first ≤ level second := by
  simp only [rank] at ordered
  simp only [level]
  grind

def countToLevel (samples : List Float) (value : Float) : Nat :=
  samples.countP fun sample => level sample ≤ level value

theorem countToLevel_cons_of_le {value other : Float} (below : level value ≤ level other)
    (rest : List Float) : countToLevel (value :: rest) other = countToLevel rest other + 1 := by
  rw [countToLevel, List.countP_cons, if_pos (decide_eq_true below), countToLevel]

theorem countToLevel_append (first second : List Float) (value : Float) :
    countToLevel (first ++ second) value = countToLevel first value + countToLevel second value :=
  List.countP_append

theorem countToLevel_eq_zero {samples : List Float} {value : Float}
    (above : ∀ sample ∈ samples, level value < level sample) : countToLevel samples value = 0 := by
  rw [countToLevel, List.countP_eq_zero]
  intro sample inside
  have higher := above sample inside
  simpa using higher

/-- The steps of samples of which `seen` came before, with levels for numbers. -/
structure AreSteps (total : Float) (seen : Nat) (samples : List Float) (steps : List Step) : Prop where
  ascending : steps.Pairwise fun earlier later => level earlier.value < level later.value
  sampled : ∀ step ∈ steps, step.value ∈ samples
  covers : ∀ sample ∈ samples, ∃ step ∈ steps, level step.value = level sample
  shares : ∀ step ∈ steps,
    step.probability = Float.ofNat (seen + countToLevel samples step.value) / total

namespace AreSteps

variable {total value : Float} {seen : Nat} {rest : List Float} {steps : List Step}

/-- A sample that starts a run joins the step of the run. -/
theorem join (later : AreSteps total (seen + 1) rest steps)
    (below : ∀ sample ∈ rest, level value ≤ level sample)
    (run : ∃ next ∈ rest, level next = level value) :
    AreSteps total seen (value :: rest) steps where
  ascending := later.ascending
  sampled := by
    intro step inside
    exact List.mem_cons_of_mem value (later.sampled step inside)
  covers := by
    intro sample inside
    rcases List.mem_cons.mp inside with rfl | deeper
    · obtain ⟨next, listed, same⟩ := run
      obtain ⟨step, found, level⟩ := later.covers next listed
      exact ⟨step, found, level.trans same⟩
    · exact later.covers sample deeper
  shares := by
    intro step inside
    have reached := below step.value (later.sampled step inside)
    rw [later.shares step inside, countToLevel_cons_of_le reached, Nat.add_assoc, Nat.add_comm 1]

/-- The last sample of a run makes a step. -/
theorem cons (later : AreSteps total (seen + 1) rest steps)
    (below : ∀ sample ∈ rest, level value < level sample) :
    AreSteps total seen (value :: rest) (⟨value, Float.ofNat (seen + 1) / total⟩ :: steps) where
  ascending := by
    refine List.pairwise_cons.mpr ⟨?_, later.ascending⟩
    intro step inside
    exact below step.value (later.sampled step inside)
  sampled := by
    intro step inside
    rcases List.mem_cons.mp inside with rfl | deeper
    · exact List.mem_cons_self
    · exact List.mem_cons_of_mem value (later.sampled step deeper)
  covers := by
    intro sample inside
    rcases List.mem_cons.mp inside with rfl | deeper
    · exact ⟨_, List.mem_cons_self, rfl⟩
    · obtain ⟨step, found, level⟩ := later.covers sample deeper
      exact ⟨step, List.mem_cons_of_mem _ found, level⟩
  shares := by
    intro step inside
    rcases List.mem_cons.mp inside with rfl | deeper
    · rw [countToLevel_cons_of_le (Int.le_refl _), countToLevel_eq_zero below]
    · have reached := below step.value (later.sampled step deeper)
      rw [later.shares step deeper, countToLevel_cons_of_le (Int.le_of_lt reached), Nat.add_assoc,
        Nat.add_comm 1]

/-- No sample lies above the last step. -/
theorem level_le_getLast {samples : List Float} (known : AreSteps total seen samples steps)
    {last : Step} (ends : steps.getLast? = some last) {sample : Float} (inside : sample ∈ samples) :
    level sample ≤ level last.value := by
  obtain ⟨step, found, level⟩ := known.covers sample inside
  have ordered := known.ascending.imp Int.le_of_lt
  have below := ordered.rel_getLast_of_rel_getLast_getLast found (Int.le_refl _)
  rwa [List.getLast_of_getLast?_eq_some ends, level] at below

end AreSteps

theorem areSteps_nil (total : Float) (seen : Nat) : AreSteps total seen [] [] :=
  ⟨List.Pairwise.nil, by simp, by simp, by simp⟩

/-- The count that the loop keeps is that of the samples so far. -/
theorem areSteps_stepsFrom (total : Float) (seen : Nat) {samples : List Float}
    (ascending : samples.Pairwise fun earlier later => level earlier ≤ level later)
    (numbers : AllNumbers samples) :
    AreSteps total seen samples (Ecdf.stepsFrom total seen samples) := by
  induction samples generalizing seen with
  | nil => exact areSteps_nil total seen
  | cons value rest ih =>
    obtain ⟨below, ordered⟩ := List.pairwise_cons.mp ascending
    obtain ⟨number, others⟩ := List.forall_mem_cons.mp numbers
    have later := ih (seen + 1) ordered others
    cases rest with
    | nil => exact later.cons (by simp)
    | cons next rest =>
      have equal := beq_iff_level_eq (others next List.mem_cons_self) number
      rw [Ecdf.stepsFrom]
      split
      · rename_i same
        exact later.join below ⟨next, List.mem_cons_self, equal.mp same⟩
      · rename_i differs
        apply later.cons
        intro sample inside
        have reached := below next List.mem_cons_self
        have other : level next ≠ level value := fun same => differs (equal.mpr same)
        have first : level value < level next := by omega
        rcases List.mem_cons.mp inside with rfl | deeper
        · exact first
        · exact Int.lt_of_lt_of_le first ((List.pairwise_cons.mp ordered).1 sample deeper)

/-! Samples in order -/

theorem countUpTo_eq_countToLevel {samples : List Float} {value : Float} (numbers : AllNumbers samples)
    (number : value.isNaN = false) : countUpTo samples value = countToLevel samples value := by
  apply List.countP_congr
  intro sample inside
  simpa using le_iff_level_le (numbers sample inside) number

/-- A higher sample counts itself. -/
theorem countUpTo_lt_countUpTo {samples : List Float} {value other : Float}
    (numbers : AllNumbers samples) (listed : value ∈ samples) (listed' : other ∈ samples)
    (below : level value < level other) : countUpTo samples value < countUpTo samples other := by
  rw [countUpTo_eq_countToLevel numbers (numbers value listed),
    countUpTo_eq_countToLevel numbers (numbers other listed')]
  obtain ⟨before, after, rfl⟩ := List.append_of_mem listed'
  have more : ∀ part : List Float, countToLevel part value ≤ countToLevel part other := by
    intro part
    apply List.countP_mono_left
    intro sample _ counted
    have reached : level sample ≤ level value := of_decide_eq_true counted
    exact decide_eq_true (Int.le_trans reached (Int.le_of_lt below))
  have left := more before
  have right := more after
  have out : countToLevel (other :: after) value = countToLevel after value :=
    List.countP_cons_of_neg (by simpa using below)
  have itself : countToLevel (other :: after) other = countToLevel after other + 1 :=
    countToLevel_cons_of_le (Int.le_refl _) after
  rw [countToLevel_append, countToLevel_append, out, itself]
  omega

theorem isCurve_ofSorted {samples : List Float} (filled : samples ≠ []) (numbers : AllNumbers samples) :
    IsCurve samples (Ecdf.ofSorted (sorted samples)) := by
  have same := sorted_perm samples
  have ordered := (pairwise_sorted samples).imp level_le_of_rank_le
  have steps := areSteps_stepsFrom (Float.ofNat (sorted samples).length) 0 ordered
    (numbers.perm same.symm)
  cases shape : sorted samples with
  | nil => exact absurd (List.nil_perm.mp (shape ▸ same)) filled
  | cons least rest =>
    rw [shape] at same ordered steps
    have listed : ∀ step ∈ (Ecdf.ofSorted (least :: rest)).steps.tail, step.value ∈ samples := by
      intro step inside
      exact same.mem_iff.mp (steps.sampled step inside)
    have smallest : least ∈ samples := same.mem_iff.mp List.mem_cons_self
    constructor
    case start =>
      refine ⟨least, smallest, rfl, ?_⟩
      intro sample inside
      rw [le_iff_level_le (numbers least smallest) (numbers sample inside)]
      rcases List.mem_cons.mp (same.mem_iff.mpr inside) with rfl | later
      · exact Int.le_refl _
      · exact (List.pairwise_cons.mp ordered).1 sample later
    case ascending =>
      apply steps.ascending.imp_of_mem
      intro earlier later first second below
      have number := numbers _ (listed earlier first)
      have number' := numbers _ (listed later second)
      exact (lt_iff_level_lt number number').mpr below
    case sampled => exact listed
    case covers =>
      intro sample inside
      obtain ⟨step, found, level⟩ := steps.covers sample (same.mem_iff.mpr inside)
      have number := numbers _ (listed step found)
      exact ⟨step, found, (beq_iff_level_eq number (numbers sample inside)).mpr level⟩
    case shares =>
      intro step inside
      have number := numbers _ (listed step inside)
      have count : countToLevel (least :: rest) step.value = countToLevel samples step.value :=
        same.countP_eq _
      rw [steps.shares step inside, countUpTo_eq_countToLevel numbers number, count, Nat.zero_add,
        same.length_eq]
    case growing =>
      apply steps.ascending.imp_of_mem
      intro earlier later first second below
      exact countUpTo_lt_countUpTo numbers (listed earlier first) (listed later second) below
    case whole =>
      obtain ⟨step, found, _⟩ := steps.covers least List.mem_cons_self
      have last := List.getLast?_eq_some_getLast (List.ne_nil_of_mem found)
      have number := numbers _ (listed _ (List.mem_of_getLast? last))
      refine ⟨_, last, List.countP_eq_length.mpr ?_⟩
      intro sample inside
      have highest := steps.level_le_getLast last (same.mem_iff.mpr inside)
      exact decide_eq_true ((le_iff_level_le (numbers sample inside) number).mpr highest)

-- Zeros of either sign make one step.
example : (Ecdf.ofSorted [-0.0, 0.0, 1.0, 2.5]).steps.map (fun step => (step.value, step.probability)) =
    [(-0.0, 0), (0.0, 0.5), (1.0, 0.75), (2.5, 1)] := by
  decide +kernel

namespace Ecdf

/-- Samples have a curve when there are some and all are numbers, and otherwise a fault. -/
theorem ofSamples_isCurve (samples : List Float) :
    ((∃ ecdf, ofSamples samples = .ok ecdf) ↔ samples ≠ [] ∧ AllNumbers samples) ∧
    (∀ ecdf, ofSamples samples = .ok ecdf → IsCurve samples ecdf) ∧
    ∀ cause, ofSamples samples = .error cause ↔ HasFault samples cause := by
  refine ⟨?_, ?_, ofSamples_eq_error_iff samples⟩
  · constructor
    · rintro ⟨ecdf, success⟩
      obtain ⟨filled, numbers, _⟩ := (ofSamples_eq_ok_iff samples ecdf).mp success
      exact ⟨filled, numbers⟩
    · rintro ⟨filled, numbers⟩
      exact ⟨_, (ofSamples_eq_ok_iff samples _).mpr ⟨filled, numbers, rfl⟩⟩
  · intro ecdf success
    obtain ⟨filled, numbers, rfl⟩ := (ofSamples_eq_ok_iff samples ecdf).mp success
    exact isCurve_ofSorted filled numbers

end Ecdf

end FlowAudit.Distribution
