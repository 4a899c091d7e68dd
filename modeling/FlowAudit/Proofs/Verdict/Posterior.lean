import FlowAudit.Proofs.Decimal.Arithmetic
import FlowAudit.Proofs.Verdict.Assessment

set_option autoImplicit false

/-!
Posteriors are probabilities (`Evaluator.posterior_is_probability`). Likelihoods may underflow and overflow,
but a sum of them that is normal is positive and not below its parts, and otherwise the logarithms are finite
(`isFinite_log_mul`), so that the larger likelihood becomes one (`exp_sub_larger`) and the sum at least that.
-/
namespace FlowAudit.Verdict

open FlowAudit.Decimal

/-- What elementary functions have to keep, of the arguments that a posterior gives them. -/
structure Elementary.Lawful (functions : Elementary) : Prop where
  power_nonneg : ∀ base exponent, 0 < base → 0 ≤ exponent → 0 ≤ functions.power base exponent
  power_le_one : ∀ base exponent, 0 < base → base < 1 → 0 ≤ exponent →
    functions.power base exponent ≤ 1
  log_bounded : ∀ value, 0 < value → value.isFinite = true →
    -1000 < functions.log value ∧ functions.log value < 1000
  exp_zero : functions.exp 0 = 1
  exp_inside : ∀ value, value ≤ 0 → 0 ≤ functions.exp value ∧ functions.exp value ≤ 1

/-- The value is the quotient of a part and its whole, and no step of it is undefined. -/
structure IsShare (value part whole : Float) : Prop where
  quotient : value = part / whole
  nonneg : 0 ≤ part
  bounded : part ≤ whole
  positive : 0 < whole
  finite : whole.isFinite = true

theorem IsShare.inside {value part whole : Float} (share : IsShare value part whole) :
    value.isNaN = false ∧ 0 ≤ value ∧ value ≤ 1 := by
  rw [share.quotient]
  exact div_inside share.nonneg share.bounded share.positive share.finite

/-- The value is a share of likelihoods that are given as logarithms. Relative to the larger of them one is
exactly one, so that their sum lies between one and two. -/
structure Elementary.Rescales (functions : Elementary) (value closed spoofed : Float) : Prop where
  finite : closed.isFinite = true
  finite' : spoofed.isFinite = true
  one : functions.exp (closed - larger closed spoofed) = 1 ∨
    functions.exp (spoofed - larger closed spoofed) = 1
  least : 1 ≤ functions.exp (closed - larger closed spoofed) +
    functions.exp (spoofed - larger closed spoofed)
  most : functions.exp (closed - larger closed spoofed) +
    functions.exp (spoofed - larger closed spoofed) ≤ 2
  share : IsShare value (functions.exp (closed - larger closed spoofed))
    (functions.exp (closed - larger closed spoofed) + functions.exp (spoofed - larger closed spoofed))

/-! Counts and their quotients -/

theorem toFloat_inside (count : UInt64) :
    count.toFloat.isFinite = true ∧ 0 ≤ quantity count.toFloat ∧ quantity count.toFloat ≤ 2 ^ 64 := by
  have rounded := isRounded_toFloat count
  have bound : (count.toNat : ℚ) ≤ 2 ^ 64 := by exact_mod_cast count.toNat_lt.le
  have power : (leastMantissa * 2 ^ (12 : Int) : ℚ) = 2 ^ 64 := by norm_num [leastMantissa]
  have low : (0 : ℚ) ≤ count.toNat := Nat.cast_nonneg _
  rw [← abs_of_nonneg low, ← power] at bound
  obtain ⟨finite, inside⟩ := rounded.abs_quantity_le (fits_powerOfTwo (by decide) (by decide)) bound
  have nonneg : 0 ≤ count.toFloat := (isRounded_quantity rfl).le_of_le rounded low
  rw [le_iff_quantity_le rfl finite, quantity_zero] at nonneg
  rw [power, abs_of_nonneg nonneg] at inside
  exact ⟨finite, nonneg, inside⟩

theorem toFloat_nonneg (count : UInt64) : 0 ≤ count.toFloat := by
  obtain ⟨finite, nonneg, _⟩ := toFloat_inside count
  rwa [le_iff_quantity_le rfl finite]

theorem one_le_quantity_toFloat {count : UInt64} (positive : 1 ≤ count.toNat) :
    1 ≤ quantity count.toFloat := by
  have least : quantity 1 ≤ count.toNat := by
    rw [quantity_one]
    exact_mod_cast positive
  have ordered := (isRounded_quantity rfl).le_of_le (isRounded_toFloat count) least
  rwa [le_iff_quantity_le rfl (toFloat_inside count).1, quantity_one] at ordered

/-- A quotient of counts neither underflows nor overflows. -/
theorem div_toFloat_inside {dividend divisor : UInt64} (positive : 1 ≤ dividend.toNat)
    (positive' : 1 ≤ divisor.toNat) :
    0 < dividend.toFloat / divisor.toFloat ∧ (dividend.toFloat / divisor.toFloat).isFinite = true := by
  obtain ⟨finite, _, most⟩ := toFloat_inside dividend
  obtain ⟨finite', _, most'⟩ := toFloat_inside divisor
  have least := one_le_quantity_toFloat positive
  have least' := one_le_quantity_toFloat positive'
  have rounded := isRounded_div finite finite' (by linarith)
  generalize quantity dividend.toFloat = first at least most rounded
  generalize quantity divisor.toFloat = second at least' most' rounded
  have tiny : quantity (.ofBits 0x3BF0000000000000) = 1 / 2 ^ 64 := by
    have known : quantity (.ofBits 0x3BF0000000000000) = leastMantissa * 2 ^ (-116 : Int) := rfl
    rw [known]
    norm_num [leastMantissa]
  have above : quantity (.ofBits 0x3BF0000000000000) ≤ first / second := by
    rw [tiny]
    gcongr
  have below : |first / second| ≤ leastMantissa * 2 ^ (12 : Int) := by
    rw [abs_of_nonneg (by positivity), div_le_iff₀ (by positivity)]
    calc first ≤ 2 ^ 64 := most
      _ = leastMantissa * 2 ^ (12 : Int) * 1 := by norm_num [leastMantissa]
      _ ≤ leastMantissa * 2 ^ (12 : Int) * second := by gcongr
  have away := (isRounded_quantity rfl).le_of_le rounded above
  exact ⟨Decimal.lt_of_lt_of_le (by decide) away,
    (rounded.abs_quantity_le (fits_powerOfTwo (by decide) (by decide)) below).1⟩

theorem duplicateFactor?_inside {snapshot : Snapshot} {factor : Float}
    (rated : duplicateFactor? snapshot = some factor) : 0 < factor ∧ factor.isFinite = true := by
  obtain ⟨duplicates, undropped, counted, rest, rfl⟩ := exists_of_duplicateFactor?_eq_some rated
  have below : ¬snapshot.droppable ≤ snapshot.dropped := by
    rw [← duplicateFactor?_eq_none_iff, rated]
    exact Option.some_ne_none _
  rw [UInt64.not_le, UInt64.lt_iff_toNat_lt] at below
  exact div_toFloat_inside (by omega) (by omega)

/-! Sums of likelihoods -/

theorem pos_of_isNormal {value : Float} (normal : isNormal value = true) (nonneg : 0 ≤ value) :
    0 < value := by
  rw [isNormal, Bool.and_eq_true, decide_eq_true_eq] at normal
  obtain ⟨large, finite⟩ := normal
  have size : |quantity value| ≤ quantity value := by
    rw [le_iff_quantity_le rfl finite, quantity_zero] at nonneg
    rw [abs_of_nonneg nonneg]
  have same := (isRounded_abs finite).le_of_le (isRounded_quantity finite) size
  have away : 0 < value.abs := Decimal.lt_of_lt_of_le (by decide) large
  exact Decimal.lt_of_lt_of_le away same

/-- A sum of likelihoods that is normal has no infinite part. -/
theorem isShare_of_isNormal {closed spoofed : Float} (normal : isNormal (closed + spoofed) = true)
    (nonneg : 0 ≤ closed) (finite : closed.isFinite = true) (nonneg' : 0 ≤ spoofed) :
    IsShare (share closed spoofed) closed (closed + spoofed) := by
  have whole : (closed + spoofed).isFinite = true := (Bool.and_eq_true_iff.mp normal).2
  have finite' := isFinite_of_isFinite_add finite whole (isNaN_of_le nonneg').2
  have bounded := le_add_of_nonneg finite finite' nonneg'
  have sum : 0 ≤ closed + spoofed := by
    rw [le_iff_quantity_le rfl finite] at nonneg
    rw [le_iff_quantity_le finite whole] at bounded
    rw [le_iff_quantity_le rfl whole]
    exact nonneg.trans bounded
  exact ⟨rfl, nonneg, bounded, pos_of_isNormal normal sum, whole⟩

/-! Likelihoods from logarithms -/

theorem larger_spec {first second : Float} (left : first.isFinite = true) (right : second.isFinite = true) :
    (larger first second = first ∧ second ≤ first) ∨ (larger first second = second ∧ first ≤ second) := by
  by_cases below : first < second
  · exact Or.inr ⟨if_pos below, Decimal.le_of_lt below⟩
  · left
    rw [lt_iff_quantity_lt left right, not_lt] at below
    exact ⟨if_neg (by rwa [lt_iff_quantity_lt left right, not_lt]), (le_iff_quantity_le right left).mpr below⟩

/-- The sum of two relative likelihoods lies between one and two. -/
theorem add_relative_inside {first second : Float} (one : first = 1 ∨ second = 1) (nonneg : 0 ≤ first)
    (most : first ≤ 1) (nonneg' : 0 ≤ second) (most' : second ≤ 1) :
    first ≤ first + second ∧ 1 ≤ first + second ∧ first + second ≤ 2 := by
  have left : first.isFinite = true := @isFinite_of_between 0 _ 1 rfl rfl nonneg most
  have right : second.isFinite = true := @isFinite_of_between 0 _ 1 rfl rfl nonneg' most'
  have bounded := le_add_of_nonneg left right nonneg'
  have rounded := isRounded_add left right
  have two : quantity 2 = 2 := by
    have known : quantity 2 = leastMantissa * 2 ^ (-51 : Int) := rfl
    rw [known]
    norm_num [leastMantissa]
  rw [le_iff_quantity_le rfl left, quantity_zero] at nonneg
  rw [le_iff_quantity_le left rfl, quantity_one] at most
  rw [le_iff_quantity_le rfl right, quantity_zero] at nonneg'
  rw [le_iff_quantity_le right rfl, quantity_one] at most'
  refine ⟨bounded, ?_, ?_⟩
  · apply (isRounded_quantity rfl).le_of_le rounded
    rw [quantity_one]
    rcases one with same | same
    · rw [same, quantity_one]
      linarith
    · rw [same, quantity_one]
      linarith
  · apply rounded.le_of_le (isRounded_quantity rfl)
    rw [two]
    linarith

namespace Elementary.Lawful

variable {functions : Elementary} (lawful : functions.Lawful)

include lawful

theorem log_inside {value : Float} (positive : 0 < value) (finite : value.isFinite = true) :
    (functions.log value).isFinite = true ∧ |quantity (functions.log value)| ≤ 1000 := by
  obtain ⟨above, below⟩ := lawful.log_bounded value positive finite
  have finite' : (functions.log value).isFinite = true :=
    @isFinite_of_between (-1000) _ 1000 rfl rfl (Decimal.le_of_lt above) (Decimal.le_of_lt below)
  have upper : quantity 1000 = 1000 := by
    have known : quantity 1000 = 8796093022208000 * 2 ^ (-43 : Int) := rfl
    rw [known]
    norm_num
  have lower : quantity (-1000) = -1000 := by
    have known : quantity (-1000) = -quantity 1000 := rfl
    rw [known, upper]
  rw [lt_iff_quantity_lt rfl finite', lower] at above
  rw [lt_iff_quantity_lt finite' rfl, upper] at below
  exact ⟨finite', abs_le.mpr ⟨above.le, below.le⟩⟩

/-- No count makes a log-likelihood infinite. -/
theorem isFinite_log_mul {value : Float} (positive : 0 < value) (finite : value.isFinite = true)
    (count : UInt64) : (functions.log value * count.toFloat).isFinite = true := by
  obtain ⟨finite', size⟩ := lawful.log_inside positive finite
  obtain ⟨finite'', nonneg, most⟩ := toFloat_inside count
  have bounded : |quantity (functions.log value) * quantity count.toFloat| ≤
      leastMantissa * 2 ^ (30 : Int) := by
    rw [abs_mul, abs_of_nonneg nonneg]
    calc |quantity (functions.log value)| * quantity count.toFloat ≤ 1000 * 2 ^ 64 := by gcongr
      _ ≤ leastMantissa * 2 ^ (30 : Int) := by norm_num [leastMantissa]
  have rounded := isRounded_mul finite' finite''
  exact (rounded.abs_quantity_le (fits_powerOfTwo (by decide) (by decide)) bounded).1

/-- Relative to the larger one of two likelihoods, that one is exactly one. -/
theorem exp_sub_larger {part other : Float} (left : part.isFinite = true) (right : other.isFinite = true) :
    let first := functions.exp (part - larger part other)
    let second := functions.exp (other - larger part other)
    (first = 1 ∨ second = 1) ∧ 0 ≤ first ∧ first ≤ 1 ∧ 0 ≤ second ∧ second ≤ 1 := by
  intro first second
  have itself : ∀ value : Float, value.isFinite = true → functions.exp (value - value) = 1 := by
    intro value finite
    rw [sub_self_eq_zero finite, lawful.exp_zero]
  rcases larger_spec left right with ⟨top, ordered⟩ | ⟨top, ordered⟩
  · have one : first = 1 := by
      change functions.exp (part - larger part other) = 1
      rw [top, itself part left]
    obtain ⟨nonneg, most⟩ := lawful.exp_inside _ (Decimal.sub_nonpos_of_le right left ordered)
    rw [← top] at nonneg most
    exact ⟨Or.inl one, by rw [one]; decide, by rw [one]; decide, nonneg, most⟩
  · have one : second = 1 := by
      change functions.exp (other - larger part other) = 1
      rw [top, itself other right]
    obtain ⟨nonneg, most⟩ := lawful.exp_inside _ (Decimal.sub_nonpos_of_le left right ordered)
    rw [← top] at nonneg most
    exact ⟨Or.inr one, nonneg, most, by rw [one]; decide, by rw [one]; decide⟩

/-- The logarithms give a share if they are finite. -/
theorem rescales_shareOfLogs {part other : Float} (left : part.isFinite = true)
    (right : other.isFinite = true) : functions.Rescales (shareOfLogs functions part other) part other := by
  obtain ⟨one, nonneg, most, nonneg', most'⟩ := lawful.exp_sub_larger left right
  obtain ⟨bounded, least, twice⟩ := add_relative_inside one nonneg most nonneg' most'
  have finite := @isFinite_of_between 1 _ 2 rfl rfl least twice
  exact ⟨left, right, one, least, twice,
    rfl, nonneg, bounded, Decimal.lt_of_lt_of_le (by decide) least, finite⟩

/-- A posterior is one of two shares, for each base and factor that settings and counters can give. -/
theorem posterior_spec {base factor : Float} (positive : 0 < base) (below : base < 1)
    (positive' : 0 < factor) (finite' : factor.isFinite = true) (notSeen retransmitted : UInt64) :
    let value := posterior functions base notSeen factor retransmitted
    let closed := functions.power base notSeen.toFloat
    let spoofed := functions.power factor retransmitted.toFloat
    if isNormal (closed + spoofed) then IsShare value closed (closed + spoofed)
    else functions.Rescales value (functions.log base * notSeen.toFloat)
      (functions.log factor * retransmitted.toFloat) := by
  intro value closed spoofed
  have finite : base.isFinite = true :=
    @isFinite_of_between 0 _ 1 rfl rfl (Decimal.le_of_lt positive) (Decimal.le_of_lt below)
  by_cases normal : isNormal (closed + spoofed)
  · have direct : value = share closed spoofed := if_pos normal
    have nonneg : 0 ≤ closed := lawful.power_nonneg _ _ positive (toFloat_nonneg notSeen)
    have most : closed ≤ 1 := lawful.power_le_one _ _ positive below (toFloat_nonneg notSeen)
    have nonneg' : 0 ≤ spoofed := lawful.power_nonneg _ _ positive' (toFloat_nonneg retransmitted)
    rw [if_pos normal, direct]
    exact isShare_of_isNormal normal nonneg (@isFinite_of_between 0 _ 1 rfl rfl nonneg most) nonneg'
  · have rescaled : value = shareOfLogs functions (functions.log base * notSeen.toFloat)
        (functions.log factor * retransmitted.toFloat) := if_neg normal
    rw [if_neg normal, rescaled]
    exact lawful.rescales_shareOfLogs (lawful.isFinite_log_mul positive finite notSeen)
      (lawful.isFinite_log_mul positive' finite' retransmitted)

end Elementary.Lawful

/-- A posterior is a number from zero to one. It is the share of the likelihoods themselves where their sum is
normal, and otherwise that of their logarithms, and neither has an undefined step. -/
theorem Evaluator.posterior_is_probability (evaluator : Evaluator) (lawful : evaluator.functions.Lawful)
    {snapshot : Snapshot} {value : Float}
    (tested : (evaluator.assess snapshot).posterior = some value) :
    (value.isNaN = false ∧ 0 ≤ value ∧ value ≤ 1) ∧
      ∃ factor, duplicateFactor? snapshot = some factor ∧
        let base := evaluator.settings.closedLoopBaseRate
        let notSeen := snapshot.notSeenDropped.toFloat
        let retransmitted := snapshot.retransmittedDropped.toFloat
        let closed := evaluator.functions.power base notSeen
        let spoofed := evaluator.functions.power factor retransmitted
        if isNormal (closed + spoofed) then IsShare value closed (closed + spoofed)
        else evaluator.functions.Rescales value (evaluator.functions.log base * notSeen)
          (evaluator.functions.log factor * retransmitted) := by
  obtain ⟨factor, rated, _, same, _⟩ := evaluator.exists_of_posterior_eq_some tested
  obtain ⟨positive', finite'⟩ := duplicateFactor?_inside rated
  obtain ⟨positive, below⟩ : 0 < evaluator.settings.closedLoopBaseRate ∧
      evaluator.settings.closedLoopBaseRate < 1 := evaluator.met (.unitRange .closedLoopBaseRate)
  have computed := lawful.posterior_spec positive below positive' finite' snapshot.notSeenDropped
    snapshot.retransmittedDropped
  rw [← same] at computed
  refine ⟨?_, factor, rated, computed⟩
  dsimp only at computed
  split at computed
  · exact computed.inside
  · exact computed.share.inside

/-- Functions that are right at one half and two and for powers that underflow and overflow. -/
def Elementary.coarse : Elementary where
  power base exponent :=
    if exponent == 0 then 1
    else if base < 1 then 0
    else Float.ofBits 0x7FF0000000000000
  log value := if value < 1 then -0.6931471805599453 else 0.6931471805599453
  exp value := if value < 0 then 0 else 1

theorem Elementary.lawful_coarse : Elementary.coarse.Lawful where
  power_nonneg := by
    intro base exponent _ _
    simp only [coarse]
    split
    · decide
    · split <;> decide
  power_le_one := by
    intro base exponent _ below _
    simp only [coarse, if_pos below]
    split <;> decide
  log_bounded := by
    intro value _ _
    simp only [coarse]
    split <;> decide
  exp_zero := by decide +kernel
  exp_inside := by
    intro value _
    simp only [coarse]
    split <;> decide

/-- One likelihood is zero; both are; one is infinite, since the factor exceeds one. -/
theorem Evaluator.posterior_of_extreme_powers :
    let evaluator : Evaluator :=
      ⟨{ closedLoopBaseRate := 0.5, duplicateThreshold := 3 }, Elementary.coarse, by decide⟩
    let halfLog (count : UInt64) := Elementary.coarse.log 0.5 * count.toFloat
    ((evaluator.assess ⟨4, 2, 1, 0, 2000⟩).posterior = some 1 ∧ IsShare 1 1 (1 + 0)) ∧
      ((evaluator.assess ⟨4, 2, 1, 2000, 2000⟩).posterior = some 0.5 ∧
        Elementary.coarse.Rescales 0.5 (halfLog 2000) (halfLog 2000)) ∧
      (evaluator.assess ⟨4, 2, 4, 0, 2000⟩).posterior = some 0 ∧
        Elementary.coarse.Rescales 0 (halfLog 0)
          (Elementary.coarse.log 2 * (2000 : UInt64).toFloat) := by
  intro evaluator halfLog
  have direct : (evaluator.assess ⟨4, 2, 1, 0, 2000⟩).posterior = some 1 := by decide +kernel
  have underflown : (evaluator.assess ⟨4, 2, 1, 2000, 2000⟩).posterior = some 0.5 := by decide +kernel
  have overflown : (evaluator.assess ⟨4, 2, 4, 0, 2000⟩).posterior = some 0 := by decide +kernel
  refine ⟨⟨direct, ?_⟩, ⟨underflown, ?_⟩, overflown, ?_⟩
  · obtain ⟨_, factor, rated, computed⟩ :=
      evaluator.posterior_is_probability Elementary.lawful_coarse direct
    cases rated
    exact (if_pos (show isNormal (1 + 0) by decide +kernel)).mp computed
  · obtain ⟨_, factor, rated, computed⟩ :=
      evaluator.posterior_is_probability Elementary.lawful_coarse underflown
    have half : duplicateFactor? ⟨4, 2, 1, 2000, 2000⟩ = some 0.5 := by decide +kernel
    cases half.symm.trans rated
    dsimp only at computed
    split at computed
    · rename_i normal
      exact absurd normal (by decide +kernel)
    · exact computed
  · obtain ⟨_, factor, rated, computed⟩ :=
      evaluator.posterior_is_probability Elementary.lawful_coarse overflown
    have two : duplicateFactor? ⟨4, 2, 4, 0, 2000⟩ = some 2 := by decide +kernel
    cases two.symm.trans rated
    dsimp only at computed
    split at computed
    · rename_i normal
      exact absurd normal (by decide +kernel)
    · exact computed

end FlowAudit.Verdict
