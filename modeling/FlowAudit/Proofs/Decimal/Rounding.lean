import FlowAudit.Proofs.Decimal.Finite
import FlowAudit.Proofs.Decimal.Order
import Mathlib.Algebra.Order.Field.Power
import Mathlib.Data.Rat.Cast.Order
import Mathlib.Tactic.FieldSimp
import Mathlib.Tactic.Linarith
import Mathlib.Tactic.Positivity

set_option autoImplicit false

/-!
Rounding to doubles. An operation on doubles drops bits of an exact result and keeps two bits that tell
where in the gap the result lies; then it takes the nearest mantissa, the even one of two. What comes out
is a level that the exact result rounds to (`exists_roundsTo_roundWithAccuracy`), and larger numbers never
round to lower levels (`RoundsTo.le_of_le`).
-/
namespace FlowAudit.Decimal

open Float.Model Float.Model.UnpackedFloat

/-! Mantissas with two more bits -/

/-- What the mantissa and the round bit count together. -/
def counted (extended : ExtendedMantissa) : ℚ :=
  extended.mantissa + if extended.roundBit then 1 / 2 else 0

/-- The number lies less than one half above the count, and the sticky bit tells whether it lies above. -/
structure Truncates (extended : ExtendedMantissa) (number : ℚ) : Prop where
  reached : counted extended ≤ number
  below : number < counted extended + 1 / 2
  sticky : extended.stickyBit = true ↔ counted extended ≠ number

theorem roundedMantissa_bounds (extended : ExtendedMantissa) :
    extended.mantissa ≤ extended.roundedMantissa ∧
      extended.roundedMantissa ≤ extended.mantissa + 1 := by
  obtain ⟨mantissa, roundBit, stickyBit⟩ := extended
  cases roundBit <;> cases stickyBit <;>
    simp only [ExtendedMantissa.roundedMantissa, ExtendedMantissa.accuracy,
      Accuracy.roundToNearestEven] <;>
    omega

theorem counted_shiftRightOne (extended : ExtendedMantissa) :
    counted extended.shiftRightOne = extended.mantissa / 2 := by
  have whole : (extended.mantissa : ℚ) =
      2 * (extended.mantissa / 2 : Nat) + (extended.mantissa % 2 : Nat) := by
    exact_mod_cast (Nat.div_add_mod extended.mantissa 2).symm
  rw [counted, whole]
  simp only [ExtendedMantissa.shiftRightOne]
  rcases Nat.mod_two_eq_zero_or_one extended.mantissa with rest | rest
  · simp [rest]
  · simp [rest]
    linarith

namespace Truncates

variable {extended extended' : ExtendedMantissa} {number other : ℚ}

theorem mantissa_le (taken : Truncates extended number) : (extended.mantissa : ℚ) ≤ number := by
  have reached := taken.reached
  rw [counted] at reached
  split at reached <;> linarith

theorem lt_succ (taken : Truncates extended number) : number < extended.mantissa + 1 := by
  have below := taken.below
  rw [counted] at below
  split at below <;> linarith

/-- Larger numbers are not rounded to smaller mantissas. -/
theorem rounded_le_rounded (taken : Truncates extended number) (taken' : Truncates extended' other)
    (ordered : number ≤ other) : extended.roundedMantissa ≤ extended'.roundedMantissa := by
  have below : (extended.mantissa : ℚ) < extended'.mantissa + 1 := by
    linarith [taken.mantissa_le, taken'.lt_succ]
  have whole : extended.mantissa ≤ extended'.mantissa :=
    Nat.lt_succ_iff.mp (by exact_mod_cast below)
  have least := (roundedMantissa_bounds extended').1
  rcases Nat.lt_or_eq_of_le whole with smaller | same
  · have most := (roundedMantissa_bounds extended).2
    omega
  · -- In one gap the bits go up with the numbers.
    obtain ⟨reached, _, sticky⟩ := taken
    obtain ⟨_, rest, sticky'⟩ := taken'
    obtain ⟨mantissa, roundBit, stickyBit⟩ := extended
    obtain ⟨mantissa', roundBit', stickyBit'⟩ := extended'
    obtain rfl : mantissa = mantissa' := same
    cases roundBit with
    | false => cases stickyBit <;> exact least
    | true =>
      cases roundBit' with
      | false =>
        simp only [counted, if_true, Bool.false_eq_true, if_false] at reached rest
        linarith
      | true =>
        cases stickyBit with
        | false =>
          cases stickyBit' with
          | false => exact Nat.le_refl _
          | true =>
            simp only [ExtendedMantissa.roundedMantissa, ExtendedMantissa.accuracy,
              Accuracy.roundToNearestEven]
            omega
        | true =>
          have above := lt_of_le_of_ne reached (sticky.mp rfl)
          have above' : stickyBit' = true := sticky'.mpr (ne_of_lt (lt_of_lt_of_le above ordered))
          rw [above']

/-- A shift halves the number. -/
theorem shiftRightOne (taken : Truncates extended number) :
    Truncates extended.shiftRightOne (number / 2) := by
  have least := taken.mantissa_le
  have most := taken.lt_succ
  refine ⟨?_, ?_, ?_⟩ <;> rw [counted_shiftRightOne]
  · linarith
  · linarith
  · have halves : (extended.mantissa : ℚ) / 2 ≠ number / 2 ↔ (extended.mantissa : ℚ) ≠ number := by
      constructor <;> (intro differs same; apply differs; linarith)
    rw [halves]
    obtain ⟨reached, _, sticky⟩ := taken
    obtain ⟨mantissa, roundBit, stickyBit⟩ := extended
    cases roundBit with
    | false => simpa [counted, ExtendedMantissa.shiftRightOne] using sticky
    | true =>
      simp [counted, ExtendedMantissa.shiftRightOne] at reached ⊢
      intro same
      linarith

theorem shiftRight (taken : Truncates extended number) (places : Nat) :
    Truncates (extended >>> places) (number / 2 ^ places) := by
  induction places with
  | zero =>
    rw [pow_zero, div_one]
    exact taken
  | succ places ih =>
    have next := ih.shiftRightOne
    rw [div_div, ← pow_succ] at next
    exact next

end Truncates

/-! Levels of numbers -/

/-- The exponent of the doubles around a positive number. Their mantissas have the leading bit, unless the
exponent is the least one. -/
structure HasExponent (number : ℚ) (exponent : Int) : Prop where
  least : -1074 ≤ exponent
  below : number < 2 * leastMantissa * 2 ^ exponent
  leading : exponent = -1074 ∨ leastMantissa * 2 ^ exponent ≤ number

/-- The level of the double nearest to a positive number, as if there were doubles of any size. -/
def RoundsTo (number : ℚ) (nearest : Int) : Prop :=
  ∃ exponent extended, HasExponent number exponent ∧
    Truncates extended (number / 2 ^ exponent) ∧
      nearest = magnitude extended.roundedMantissa exponent

theorem leastMantissa_eq : leastMantissa = 2 ^ 52 := by
  decide

theorem leastMantissa_eq_zpow : (leastMantissa : ℚ) = 2 ^ (52 : Int) := by
  norm_num [leastMantissa]

theorem leastMantissa_pos : (0 : ℚ) < leastMantissa := by
  norm_num [leastMantissa]

namespace HasExponent

variable {number other : ℚ} {exponent exponent' : Int} {extended : ExtendedMantissa}

theorem le_of_le (scaled : HasExponent number exponent) (scaled' : HasExponent other exponent')
    (ordered : number ≤ other) : exponent ≤ exponent' := by
  by_contra larger
  have above : exponent' + 1 ≤ exponent := by omega
  have least := scaled'.least
  have leading := scaled.leading.resolve_left (by omega)
  have powers : (2 : ℚ) ^ (exponent' + 1) ≤ 2 ^ exponent :=
    zpow_le_zpow_right₀ (by norm_num) above
  rw [zpow_add_one₀ (by norm_num)] at powers
  have multiples := mul_le_mul_of_nonneg_left powers leastMantissa_pos.le
  linarith [scaled'.below]

theorem rounded_le (scaled : HasExponent number exponent)
    (taken : Truncates extended (number / 2 ^ exponent)) :
    extended.roundedMantissa ≤ 2 * leastMantissa := by
  have quotient : number / 2 ^ exponent < 2 * leastMantissa := by
    rw [div_lt_iff₀ (by positivity)]
    exact scaled.below
  have below := lt_of_le_of_lt taken.mantissa_le quotient
  have whole : extended.mantissa < 2 * leastMantissa := by exact_mod_cast below
  have most := (roundedMantissa_bounds extended).2
  omega

theorem le_rounded (scaled : HasExponent number exponent)
    (taken : Truncates extended (number / 2 ^ exponent)) :
    exponent = -1074 ∨ leastMantissa ≤ extended.roundedMantissa := by
  apply scaled.leading.imp_right
  intro leading
  have quotient : (leastMantissa : ℚ) ≤ number / 2 ^ exponent := by
    rwa [le_div_iff₀ (by positivity)]
  have reached := lt_of_le_of_lt quotient taken.lt_succ
  have whole : leastMantissa < extended.mantissa + 1 := by exact_mod_cast reached
  have least := (roundedMantissa_bounds extended).1
  omega

end HasExponent

namespace RoundsTo

variable {number other : ℚ} {nearest nearest' : Int}

/-- A larger number has no lower level. Where the exponents differ, rounding up does not reach the
mantissas of the larger exponent. -/
theorem le_of_le (rounds : RoundsTo number nearest) (rounds' : RoundsTo other nearest')
    (ordered : number ≤ other) : nearest ≤ nearest' := by
  obtain ⟨exponent, extended, scaled, taken, rfl⟩ := rounds
  obtain ⟨exponent', extended', scaled', taken', rfl⟩ := rounds'
  rcases Int.lt_or_eq_of_le (scaled.le_of_le scaled' ordered) with smaller | rfl
  · have least := scaled.least
    have high := scaled.rounded_le taken
    have low := (scaled'.le_rounded taken').resolve_left (by omega)
    simp only [magnitude, leastMantissa] at high low ⊢
    omega
  · have quotients : number / 2 ^ exponent ≤ other / 2 ^ exponent := by gcongr
    have rounded := taken.rounded_le_rounded taken' quotients
    simp only [magnitude]
    omega

theorem unique (rounds : RoundsTo number nearest) (rounds' : RoundsTo number nearest') :
    nearest = nearest' :=
  Int.le_antisymm (rounds.le_of_le rounds' le_rfl) (rounds'.le_of_le rounds le_rfl)

theorem nonneg (rounds : RoundsTo number nearest) : 0 ≤ nearest := by
  obtain ⟨exponent, extended, scaled, _, rfl⟩ := rounds
  have least := scaled.least
  simp only [magnitude, leastMantissa]
  omega

end RoundsTo

theorem truncates_exact (mantissa : Nat) :
    Truncates (.ofMantissaAndAccuracy mantissa .exact) mantissa := by
  have whole : counted ⟨mantissa, false, false⟩ = mantissa := by simp [counted]
  change Truncates ⟨mantissa, false, false⟩ mantissa
  exact ⟨whole.le, by rw [whole]; linarith, by simp [whole]⟩

namespace Fits

variable {mantissa mantissa' : Nat} {exponent exponent' : Int}

theorem hasExponent (fits : Fits mantissa exponent) :
    HasExponent (mantissa * 2 ^ exponent) exponent := by
  refine ⟨fits.least, ?_, ?_⟩
  · have bounded : (mantissa : ℚ) < 2 * leastMantissa := by exact_mod_cast fits.bounded
    gcongr
  · apply fits.leading.imp_right
    intro leading
    gcongr

/-- A double rounds to itself. -/
theorem roundsTo (fits : Fits mantissa exponent) :
    RoundsTo (mantissa * 2 ^ exponent) (magnitude mantissa exponent) := by
  refine ⟨exponent, .ofMantissaAndAccuracy mantissa .exact, fits.hasExponent, ?_, rfl⟩
  rw [mul_div_cancel_right₀ _ (by positivity)]
  exact truncates_exact mantissa

/-- Positive doubles are ordered as their levels. -/
theorem value_le_value (fits : Fits mantissa exponent) (fits' : Fits mantissa' exponent')
    (ordered : magnitude mantissa exponent ≤ magnitude mantissa' exponent') :
    (mantissa * 2 ^ exponent : ℚ) ≤ mantissa' * 2 ^ exponent' := by
  by_contra larger
  have exponents := fits'.hasExponent.le_of_le fits.hasExponent (le_of_not_ge larger)
  rcases Int.lt_or_eq_of_le exponents with smaller | rfl
  · have less := fits'.magnitude_lt_of_exponent_lt fits smaller
    omega
  · have mantissas : mantissa ≤ mantissa' := by
      simp only [magnitude] at ordered
      omega
    apply larger
    gcongr

end Fits

/-! Packing -/

/-- The level of the infinity. -/
def topLevel : Int :=
  2047 * leastMantissa

theorem toNat_packComponents (sign : Sign) (exponent : BitVec 11) (mantissa : BitVec 52) :
    (packComponents Format.binary64 sign exponent mantissa).toNat =
      (sign.toBitVec.toNat * 2048 + exponent.toNat) * leastMantissa + mantissa.toNat := by
  change (sign.toBitVec ++ exponent ++ mantissa).toNat = _
  rw [BitVec.toNat_append, BitVec.toNat_append, ← Nat.shiftLeft_add_eq_or_of_lt exponent.isLt,
    ← Nat.shiftLeft_add_eq_or_of_lt mantissa.isLt, Nat.shiftLeft_eq, Nat.shiftLeft_eq]
  rfl

theorem level_packComponents {sign : Sign} {exponent : BitVec 11} {mantissa : BitVec 52}
    {value : UnpackedFloat}
    (packed : UnpackedFloat.pack Format.binary64 value =
      packComponents Format.binary64 sign exponent mantissa) :
    level (.ofModel (Float.Model.pack value)) =
      sign.apply (exponent.toNat * leastMantissa + mantissa.toNat) := by
  have whole : (Float.toBits (.ofModel (Float.Model.pack value))).toNat = _ :=
    (congrArg BitVec.toNat packed).trans (toNat_packComponents sign exponent mantissa)
  have bound := exponent.isLt
  have bound' := mantissa.isLt
  simp only [level, whole]
  cases sign <;>
    simp only [Sign.toBitVec, Sign.apply, signBit, leastMantissa, BitVec.toNat_ofNat] <;>
    omega

section Packing

variable (sign : Sign) {mantissa : Nat} {exponent : Int} (bounded : mantissa < 2 * leastMantissa)
  (least : -1074 ≤ exponent) (leading : exponent = -1074 ∨ leastMantissa ≤ mantissa)

include bounded least leading

/-- A double too large for its format is packed as the infinity, which comes next. -/
theorem level_pack_finite (positive : 0 < mantissa) :
    level (.ofModel (Float.Model.pack (.finite sign mantissa exponent positive))) =
      sign.apply (min (magnitude mantissa exponent) topLevel) := by
  have bias : (exponent + Format.binary64.exponentBias +
      Format.binary64.mantissaBitsWithoutImplicit).toNat = (exponent + 1075).toNat := by
    have sum : (Format.binary64.exponentBias : Int) = 1023 := rfl
    simp only [sum]
    omega
  have bits : mantissa.log2 + 1 = Format.binary64.mantissaBits ↔ leastMantissa ≤ mantissa := by
    have size : Format.binary64.mantissaBits = 53 := rfl
    have low : 52 ≤ mantissa.log2 ↔ leastMantissa ≤ mantissa := Nat.le_log2 (by omega)
    have high : mantissa.log2 < 53 ↔ mantissa < 2 * leastMantissa := Nat.log2_lt (by omega)
    omega
  have shape : UnpackedFloat.pack Format.binary64 (.finite sign mantissa exponent positive) =
      if 2 ^ 11 ≤ (exponent + 1075).toNat + 1 then packComponents Format.binary64 sign (-1#11) 0#52
      else if leastMantissa ≤ mantissa then
        packComponents Format.binary64 sign (BitVec.ofNat 11 (exponent + 1075).toNat)
          (BitVec.ofNat 52 mantissa)
      else packComponents Format.binary64 sign 0#11 (BitVec.ofNat 52 mantissa) := by
    unfold UnpackedFloat.pack
    dsimp only
    simp only [bias, bits]
    rfl
  by_cases large : 2 ^ 11 ≤ (exponent + 1075).toNat + 1
  · rw [if_pos large] at shape
    have ones : (-1#11).toNat = 2047 := rfl
    rw [level_packComponents shape]
    simp only [ones, magnitude, topLevel, leastMantissa, BitVec.toNat_ofNat] at leading ⊢
    congr 1
    omega
  · rw [if_neg large] at shape
    by_cases normal : leastMantissa ≤ mantissa
    · rw [if_pos normal] at shape
      rw [level_packComponents shape]
      simp only [magnitude, topLevel, leastMantissa, BitVec.toNat_ofNat] at normal bounded ⊢
      congr 1
      omega
    · rw [if_neg normal] at shape
      rw [level_packComponents shape]
      simp only [magnitude, topLevel, leastMantissa, BitVec.toNat_ofNat] at normal leading ⊢
      congr 1
      omega

/-- A zero or a finite number with this mantissa. -/
def ofParts (sign : Sign) (mantissa : Nat) (exponent : Int) : UnpackedFloat :=
  if filled : mantissa = 0 then .zero sign
  else .finite sign mantissa exponent (Nat.pos_of_ne_zero filled)

theorem level_pack_ofParts :
    level (.ofModel (Float.Model.pack (ofParts sign mantissa exponent))) =
      sign.apply (min (magnitude mantissa exponent) topLevel) := by
  by_cases none : mantissa = 0
  · have smallest : exponent = -1074 := leading.resolve_right (by rw [none]; decide)
    rw [ofParts, dif_pos none, none, smallest]
    cases sign <;> decide
  · rw [ofParts, dif_neg none]
    exact level_pack_finite sign bounded least leading _

end Packing

/-! Rounding -/

theorem targetExponent_eq (mantissa : Nat) (exponent : Int) :
    Format.binary64.targetExponent (totalExponent mantissa exponent) =
      max (mantissa.log2 + exponent - 52) (-1074) := by
  have size : Format.binary64.mantissaBits = 53 := rfl
  simp only [Format.targetExponent, totalExponent, size, Format.minExponent]
  omega

/-- The mantissa is so long or the exponent so small that rounding only drops bits. -/
def Roundable (mantissa : Nat) (exponent : Int) : Prop :=
  leastMantissa ≤ mantissa ∨ exponent ≤ -1074

namespace Roundable

variable {mantissa : Nat} {exponent : Int}

theorem le_targetExponent (roundable : Roundable mantissa exponent) :
    exponent ≤ Format.binary64.targetExponent (totalExponent mantissa exponent) := by
  rw [targetExponent_eq]
  rcases roundable with long | small
  · have filled : mantissa ≠ 0 := by
      simp only [leastMantissa] at long
      omega
    have bits : 52 ≤ mantissa.log2 := (Nat.le_log2 filled).mpr long
    omega
  · omega

theorem hasExponent (roundable : Roundable mantissa exponent) {extended : ExtendedMantissa}
    (same : extended.mantissa = mantissa) {number : ℚ} (taken : Truncates extended number) :
    HasExponent (number * 2 ^ exponent)
      (Format.binary64.targetExponent (totalExponent mantissa exponent)) := by
  have target := targetExponent_eq mantissa exponent
  generalize Format.binary64.targetExponent (totalExponent mantissa exponent) = limit at target ⊢
  have least := taken.mantissa_le
  have most := taken.lt_succ
  rw [same] at least most
  refine ⟨by omega, ?_, ?_⟩
  · have bits : (mantissa : ℚ) + 1 ≤ 2 ^ ((mantissa.log2 + 1 : Nat) : Int) := by
      have bound := Nat.lt_log2_self (n := mantissa)
      exact_mod_cast bound
    calc number * 2 ^ exponent < 2 ^ ((mantissa.log2 + 1 : Nat) : Int) * 2 ^ exponent := by
          gcongr
          linarith
      _ = 2 ^ (mantissa.log2 + 1 + exponent : Int) := by
          rw [← zpow_add₀ (by norm_num)]
          push_cast
          rfl
      _ ≤ 2 ^ (1 + 52 + limit) := zpow_le_zpow_right₀ (by norm_num) (by omega)
      _ = 2 * leastMantissa * 2 ^ limit := by
          rw [zpow_add₀ (by norm_num), zpow_add₀ (by norm_num), zpow_one, leastMantissa_eq_zpow]
  · by_cases smallest : limit = -1074
    · exact Or.inl smallest
    · right
      have filled : mantissa ≠ 0 := by
        rintro rfl
        rcases roundable with long | small
        · exact absurd long (by decide)
        · simp only [Nat.log2_zero] at target
          omega
      have bits : (2 : ℚ) ^ (mantissa.log2 : Int) ≤ mantissa := by
        have bound := Nat.log2_self_le filled
        exact_mod_cast bound
      calc leastMantissa * 2 ^ limit = (2 : ℚ) ^ (mantissa.log2 : Int) * 2 ^ exponent := by
            rw [leastMantissa_eq_zpow, ← zpow_add₀ (by norm_num), ← zpow_add₀ (by norm_num)]
            congr 1
            omega
        _ ≤ number * 2 ^ exponent := by
            gcongr
            linarith

end Roundable

/-- A rounded mantissa has at most one bit too many, and loses it without a change of its level. -/
theorem exists_shiftToTargetExponent {mantissa : Nat} {exponent : Int}
    (bounded : mantissa ≤ 2 * leastMantissa) (least : -1074 ≤ exponent)
    (leading : exponent = -1074 ∨ leastMantissa ≤ mantissa) :
    ∃ mantissa' exponent',
      (shiftToTargetExponent Format.binary64 mantissa exponent .exact).1.mantissa = mantissa' ∧
      (shiftToTargetExponent Format.binary64 mantissa exponent .exact).2 = exponent' ∧
      magnitude mantissa' exponent' = magnitude mantissa exponent ∧
      mantissa' < 2 * leastMantissa ∧ -1074 ≤ exponent' ∧
      (exponent' = -1074 ∨ leastMantissa ≤ mantissa') := by
  have target := targetExponent_eq mantissa exponent
  rw [shiftToTargetExponent]
  generalize Format.binary64.targetExponent (totalExponent mantissa exponent) = limit at target ⊢
  rcases Nat.lt_or_eq_of_le bounded with fits | rfl
  · have bits : mantissa.log2 ≤ 52 := by
      by_cases filled : mantissa = 0
      · rw [filled]
        decide
      · exact Nat.le_of_lt_succ ((Nat.log2_lt filled).mpr fits)
    have none : (limit - exponent).toNat = 0 := by omega
    refine ⟨mantissa, exponent, ?_, ?_, rfl, fits, least, leading⟩ <;> rw [shiftToExponent, none]
    · rfl
    · exact Int.add_zero exponent
  · have bits : (2 * leastMantissa).log2 = 53 := by decide
    have one : (limit - exponent).toNat = 1 := by omega
    refine ⟨leastMantissa, exponent + 1, ?_, ?_, ?_, by decide, by omega, Or.inr (Nat.le_refl _)⟩
    · rw [shiftToExponent, one]
      rfl
    · rw [shiftToExponent, one]
      rfl
    · simp only [magnitude, leastMantissa]
      omega

theorem mantissa_ofMantissaAndAccuracy (mantissa : Nat) (accuracy : Accuracy) :
    (ExtendedMantissa.ofMantissaAndAccuracy mantissa accuracy).mantissa = mantissa := by
  cases accuracy with
  | exact => rfl
  | inexact place => cases place <;> rfl

/-- Rounding takes the nearest level, up to that of the infinity. -/
theorem exists_roundsTo_roundWithAccuracy (sign : Sign) {mantissa : Nat} {exponent : Int}
    {accuracy : Accuracy} {number : ℚ} (roundable : Roundable mantissa exponent)
    (taken : Truncates (.ofMantissaAndAccuracy mantissa accuracy) number) :
    ∃ nearest, RoundsTo (number * 2 ^ exponent) nearest ∧
      level (.ofModel (Float.Model.pack
        (roundWithAccuracy Format.binary64 sign mantissa exponent accuracy))) =
          sign.apply (min nearest topLevel) := by
  have reached := roundable.le_targetExponent
  have scaled := roundable.hasExponent (mantissa_ofMantissaAndAccuracy mantissa accuracy) taken
  have parts : roundWithAccuracy Format.binary64 sign mantissa exponent accuracy =
      let first := shiftToTargetExponent Format.binary64 mantissa exponent accuracy
      let second := shiftToTargetExponent Format.binary64 first.1.roundedMantissa first.2 .exact
      ofParts sign second.1.mantissa second.2 := rfl
  rw [parts, shiftToTargetExponent.eq_def _ mantissa]
  generalize Format.binary64.targetExponent (totalExponent mantissa exponent) = limit at reached scaled ⊢
  obtain ⟨places, rfl⟩ : ∃ places : Nat, limit = exponent + places :=
    ⟨(limit - exponent).toNat, by omega⟩
  have shift : (exponent + places - exponent).toNat = places := by omega
  have quotient : number * 2 ^ exponent / 2 ^ (exponent + (places : Int)) = number / 2 ^ places := by
    rw [zpow_add₀ (by norm_num), zpow_natCast, mul_comm _ ((2 : ℚ) ^ exponent),
      mul_div_mul_left _ _ (by positivity)]
  have shifted := taken.shiftRight places
  rw [← quotient] at shifted
  simp only [shiftToExponent, shift]
  generalize ExtendedMantissa.ofMantissaAndAccuracy mantissa accuracy >>> places = extended at shifted ⊢
  obtain ⟨mantissa', exponent', first, second, same, bounded, least, leading⟩ :=
    exists_shiftToTargetExponent (scaled.rounded_le shifted) scaled.least (scaled.le_rounded shifted)
  refine ⟨_, ⟨_, extended, scaled, shifted, rfl⟩, ?_⟩
  rw [← same, first, second]
  exact level_pack_ofParts sign bounded least leading

end FlowAudit.Decimal
