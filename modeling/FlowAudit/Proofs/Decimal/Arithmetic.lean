import FlowAudit.Proofs.Decimal.Rounding

set_option autoImplicit false

/-!
Arithmetic of doubles. A finite double stands for one rational number and is ordered by it
(`le_iff_quantity_le`). Sums, differences, products and quotients of finite doubles are the exact results,
rounded (`isRounded_add`, `isRounded_sub`, `isRounded_mul`, `isRounded_div`), and rounding keeps the order
(`IsRounded.le_of_le`).
-/
namespace FlowAudit.Decimal

open Float.Model Float.Model.UnpackedFloat

/-! Signed numbers -/

/-- The number of this size on this side of zero. -/
def withSign (sign : Sign) (size : ℚ) : ℚ :=
  match sign with
  | .negative => -size
  | .positive => size

theorem withSign_neg (sign : Sign) (size : ℚ) : withSign (-sign) size = -withSign sign size := by
  cases sign with
  | negative => exact (neg_neg size).symm
  | positive => rfl

theorem apply_neg (sign : Sign) (size : Int) : (-sign).apply size = -sign.apply size := by
  cases sign with
  | negative => exact (Int.neg_neg size).symm
  | positive => rfl

theorem withSign_mul (sign sign' : Sign) (size size' : ℚ) :
    withSign (sign * sign') (size * size') = withSign sign size * withSign sign' size' := by
  cases sign <;> cases sign'
  · exact (neg_mul_neg size size').symm
  · exact (neg_mul size size').symm
  · exact (mul_neg size size').symm
  · rfl

theorem withSign_div (sign sign' : Sign) (size size' : ℚ) :
    withSign (sign / sign') (size / size') = withSign sign size / withSign sign' size' := by
  cases sign <;> cases sign'
  · exact (neg_div_neg_eq size size').symm
  · exact (neg_div size' size).symm
  · exact (div_neg size).symm
  · rfl

theorem withSign_apply (sign : Sign) (size : Nat) : withSign sign size = (sign.apply size : Int) := by
  cases sign with
  | negative => exact (Int.cast_neg _).symm
  | positive => rfl

theorem abs_withSign (sign : Sign) {size : ℚ} (nonneg : 0 ≤ size) : |withSign sign size| = size := by
  cases sign with
  | negative => exact (abs_neg size).trans (abs_of_nonneg nonneg)
  | positive => exact abs_of_nonneg nonneg

/-! Rounded numbers -/

theorem fits_zero : Fits 0 (-1074) :=
  ⟨by decide, by decide, by decide, Or.inl rfl⟩

theorem fits_powerOfTwo {exponent : Int} (least : -1074 ≤ exponent) (most : exponent ≤ 971) :
    Fits leastMantissa exponent :=
  ⟨by decide, least, most, Or.inr (Nat.le_refl _)⟩

namespace RoundsTo

variable {number : ℚ} {nearest : Int}

theorem number_nonneg (rounds : RoundsTo number nearest) : 0 ≤ number := by
  obtain ⟨exponent, extended, _, taken, _⟩ := rounds
  have reached : 0 ≤ number / 2 ^ exponent := le_trans (Nat.cast_nonneg _) taken.mantissa_le
  have power : (0 : ℚ) < 2 ^ exponent := by positivity
  rwa [le_div_iff₀ power, zero_mul] at reached

theorem zero : RoundsTo 0 0 := by
  have rounds := fits_zero.roundsTo
  rw [Nat.cast_zero, zero_mul] at rounds
  exact rounds

theorem nonpos (rounds : RoundsTo number nearest) (below : number ≤ 0) : nearest ≤ 0 :=
  rounds.le_of_le zero below

end RoundsTo

theorem topLevel_pos : 0 < topLevel := by
  decide

/-- The double is a number of either sign, rounded; beyond the largest double that is an infinity. -/
structure IsRounded (value : Float) (number : ℚ) : Prop where
  isNumber : value.isNaN = false
  rounds : ∃ sign size nearest, number = withSign sign size ∧ RoundsTo size nearest ∧
    level value = sign.apply (min nearest topLevel)

/-- A larger number is not rounded to a smaller double. -/
theorem IsRounded.le_of_le {value value' : Float} {number number' : ℚ} (rounded : IsRounded value number)
    (rounded' : IsRounded value' number') (ordered : number ≤ number') : value ≤ value' := by
  obtain ⟨isNumber, sign, size, nearest, rfl, rounds, same⟩ := rounded
  obtain ⟨isNumber', sign', size', nearest', rfl, rounds', same'⟩ := rounded'
  have top := topLevel_pos
  have low := rounds.nonneg
  have low' := rounds'.nonneg
  have nonneg := rounds.number_nonneg
  have nonneg' := rounds'.number_nonneg
  rw [le_iff_level_le isNumber isNumber', same, same']
  cases sign with
  | negative =>
    cases sign' with
    | negative =>
      have places := rounds'.le_of_le rounds (neg_le_neg_iff.mp ordered)
      simp only [Sign.apply]
      omega
    | positive =>
      simp only [Sign.apply]
      omega
  | positive =>
    cases sign' with
    | negative =>
      -- Both numbers are zero.
      simp only [withSign] at ordered
      have least := rounds.nonpos (by linarith)
      have least' := rounds'.nonpos (by linarith)
      simp only [Sign.apply]
      omega
    | positive =>
      have places := rounds.le_of_le rounds' ordered
      simp only [Sign.apply]
      omega

/-! The numbers that doubles stand for -/

/-- The number of an unpacked finite double, and zero for the others. -/
def exactValue : UnpackedFloat → ℚ
  | .finite sign mantissa exponent _ => withSign sign (mantissa * 2 ^ exponent)
  | _ => 0

theorem exactValue_zero (sign : Sign) : exactValue (.zero sign) = 0 :=
  rfl

theorem exactValue_finite (sign : Sign) {mantissa : Nat} {exponent : Int} (positive : 0 < mantissa) :
    exactValue (.finite sign mantissa exponent positive) = withSign sign (mantissa * 2 ^ exponent) :=
  rfl

def quantity (value : Float) : ℚ :=
  exactValue value.toModel.unpack

theorem unpacked_toModel {value : Float} (number : value.isNaN = false) :
    Unpacked value.toModel.unpack ∧ height value.toModel.unpack = level value := by
  obtain ⟨unpacked, same⟩ := unpacked_unpack value.toModel.toBits.toBitVec number
  rw [apply_ofBitVec_unpackSign] at same
  exact ⟨unpacked, same⟩

theorem isNaN_of_isFinite {value : Float} (finite : value.isFinite = true) : value.isNaN = false := by
  change value.toModel.unpack.isNaN = false
  change value.toModel.unpack.isFinite = true at finite
  cases shape : value.toModel.unpack <;> rw [shape] at finite <;> first | rfl | cases finite

section Finite

variable {value first second : Float} (finite : value.isFinite = true)
  (left : first.isFinite = true) (right : second.isFinite = true)

include finite

/-- A zero is a mantissa like the others. -/
theorem exists_fits :
    ∃ sign mantissa exponent, Fits mantissa exponent ∧
      quantity value = withSign sign (mantissa * 2 ^ exponent) ∧
      level value = sign.apply (magnitude mantissa exponent) := by
  obtain ⟨unpacked, same⟩ := unpacked_toModel (isNaN_of_isFinite finite)
  change value.toModel.unpack.isFinite = true at finite
  rw [← same, quantity]
  generalize value.toModel.unpack = parts at unpacked finite ⊢
  cases unpacked with
  | zero sign =>
    refine ⟨.positive, 0, -1074, fits_zero, ?_, rfl⟩
    rw [Nat.cast_zero, zero_mul]
    rfl
  | infinity sign => cases finite
  | finite sign positive fits => exact ⟨sign, _, _, fits, rfl, rfl⟩

theorem level_inside : -topLevel < level value ∧ level value < topLevel := by
  obtain ⟨sign, mantissa, exponent, fits, _, same⟩ := exists_fits finite
  have inside := fits.magnitude_lt
  have least := fits.least
  have low : 0 ≤ magnitude mantissa exponent := by
    simp only [magnitude, leastMantissa]
    omega
  rw [same]
  cases sign <;> simp only [Sign.apply, topLevel] <;> omega

theorem isRounded_quantity : IsRounded value (quantity value) := by
  obtain ⟨sign, mantissa, exponent, fits, number, same⟩ := exists_fits finite
  have inside := fits.magnitude_lt
  have least : min (magnitude mantissa exponent) topLevel = magnitude mantissa exponent :=
    Int.min_eq_left (Int.le_of_lt inside)
  exact ⟨isNaN_of_isFinite finite, sign, _, _, number, fits.roundsTo, by rw [least, same]⟩

omit finite

include left right

theorem le_iff_quantity_le : first ≤ second ↔ quantity first ≤ quantity second := by
  refine ⟨?_, (isRounded_quantity left).le_of_le (isRounded_quantity right)⟩
  intro ordered
  rw [le_iff_level_le (isNaN_of_isFinite left) (isNaN_of_isFinite right)] at ordered
  obtain ⟨sign, mantissa, exponent, fits, number, same⟩ := exists_fits left
  obtain ⟨sign', mantissa', exponent', fits', number', same'⟩ := exists_fits right
  have low : (0 : ℚ) ≤ mantissa * 2 ^ exponent := by positivity
  have low' : (0 : ℚ) ≤ mantissa' * 2 ^ exponent' := by positivity
  rw [same, same'] at ordered
  rw [number, number']
  cases sign with
  | negative =>
    cases sign' with
    | negative => exact neg_le_neg (fits'.value_le_value fits (Int.neg_le_neg_iff.mp ordered))
    | positive => exact le_trans (neg_nonpos.mpr low) low'
  | positive =>
    cases sign' with
    | negative =>
      -- Both levels are zero, hence both numbers are.
      have least := fits.least
      have least' := fits'.least
      simp only [Sign.apply, magnitude, leastMantissa] at ordered
      have none := fits.value_le_value fits_zero (by simp only [magnitude, leastMantissa]; omega)
      have none' := fits'.value_le_value fits_zero (by simp only [magnitude, leastMantissa]; omega)
      rw [Nat.cast_zero, zero_mul] at none none'
      simp only [withSign]
      linarith
    | positive => exact fits.value_le_value fits' ordered

theorem lt_iff_quantity_lt : first < second ↔ quantity first < quantity second := by
  rw [← Decimal.not_le_iff_lt (isNaN_of_isFinite left) (isNaN_of_isFinite right),
    le_iff_quantity_le right left, not_le]

end Finite

theorem quantity_zero : quantity 0 = 0 :=
  rfl

theorem quantity_one : quantity 1 = 1 := by
  have known : quantity 1 = leastMantissa * 2 ^ (-52 : Int) := rfl
  rw [known]
  norm_num [leastMantissa]

theorem isFinite_of_level {value : Float} (number : value.isNaN = false) (above : -topLevel < level value)
    (below : level value < topLevel) : value.isFinite = true := by
  obtain ⟨unpacked, same⟩ := unpacked_toModel number
  change value.toModel.unpack.isFinite = true
  rw [← same] at above below
  generalize value.toModel.unpack = parts at unpacked above below ⊢
  cases unpacked with
  | zero sign => rfl
  | infinity sign =>
    cases sign with
    | negative => exact absurd above (Int.lt_irrefl _)
    | positive => exact absurd below (Int.lt_irrefl _)
  | finite sign positive fits => rfl

/-- What lies between finite doubles is finite. -/
theorem isFinite_of_between {lower value upper : Float} (left : lower.isFinite = true)
    (right : upper.isFinite = true) (above : lower ≤ value) (below : value ≤ upper) :
    value.isFinite = true := by
  have number := (isNaN_of_le above).2
  rw [le_iff_level_le (isNaN_of_isFinite left) number] at above
  rw [le_iff_level_le number (isNaN_of_isFinite right)] at below
  apply isFinite_of_level number
  · exact Int.lt_of_lt_of_le (level_inside left).1 above
  · exact Int.lt_of_le_of_lt below (level_inside right).2

/-- Rounding does not lead past a double. -/
theorem IsRounded.abs_quantity_le {value : Float} {number : ℚ} {mantissa : Nat} {exponent : Int}
    (rounded : IsRounded value number) (fits : Fits mantissa exponent)
    (bounded : |number| ≤ mantissa * 2 ^ exponent) :
    value.isFinite = true ∧ |quantity value| ≤ mantissa * 2 ^ exponent := by
  obtain ⟨isNumber, sign, size, nearest, rfl, rounds, same⟩ := rounded
  rw [abs_withSign sign rounds.number_nonneg] at bounded
  have places := rounds.le_of_le fits.roundsTo bounded
  have inside : magnitude mantissa exponent < topLevel := fits.magnitude_lt
  have low := rounds.nonneg
  have most : min nearest topLevel = nearest := Int.min_eq_left (by omega)
  rw [most] at same
  have finite : value.isFinite = true := by
    apply isFinite_of_level isNumber
    all_goals
      rw [same]
      cases sign <;> simp only [Sign.apply] <;> omega
  refine ⟨finite, ?_⟩
  obtain ⟨sign', mantissa', exponent', fits', quantity, same'⟩ := exists_fits finite
  have positive : (0 : ℚ) ≤ mantissa' * 2 ^ exponent' := by positivity
  have least := fits'.least
  rw [quantity, abs_withSign sign' positive]
  apply fits'.value_le_value fits
  rw [same] at same'
  cases sign <;> cases sign' <;> simp only [Sign.apply, magnitude, leastMantissa] at same' places ⊢ <;> omega

/-! Packed results -/

theorem isRounded_pack {parts : UnpackedFloat} (unpacked : Unpacked parts)
    (finite : parts.isFinite = true) :
    IsRounded (.ofModel (Float.Model.pack parts)) (exactValue parts) := by
  cases unpacked with
  | infinity sign => cases finite
  | zero sign =>
    refine ⟨isNaN_unpack_pack rfl, .positive, 0, 0, rfl, RoundsTo.zero, ?_⟩
    cases sign <;> decide
  | finite sign positive fits =>
    exact ⟨isNaN_unpack_pack rfl, sign, _, _, rfl, fits.roundsTo,
      level_pack_finite sign fits.bounded fits.least fits.leading positive⟩

theorem isNaN_roundWithAccuracy (sign : Sign) (mantissa : Nat) (exponent : Int) (accuracy : Accuracy) :
    (roundWithAccuracy Format.binary64 sign mantissa exponent accuracy).isNaN = false := by
  unfold roundWithAccuracy
  rw [apply_dite UnpackedFloat.isNaN]
  exact dite_eq_ite.trans (ite_self false)

theorem isRounded_roundWithAccuracy (sign : Sign) {mantissa : Nat} {exponent : Int} {accuracy : Accuracy}
    {number : ℚ} (roundable : Roundable mantissa exponent)
    (taken : Truncates (.ofMantissaAndAccuracy mantissa accuracy) number) :
    IsRounded (.ofModel (Float.Model.pack
      (roundWithAccuracy Format.binary64 sign mantissa exponent accuracy)))
        (withSign sign (number * 2 ^ exponent)) := by
  obtain ⟨nearest, rounds, same⟩ := exists_roundsTo_roundWithAccuracy sign roundable taken
  exact ⟨isNaN_unpack_pack (isNaN_roundWithAccuracy _ _ _ _), sign, _, nearest, rfl, rounds, same⟩

theorem roundable_round {mantissa : Nat} (positive : 0 < mantissa) (exponent : Int) {places : Nat}
    (same : places =
      (exponent - Format.binary64.targetExponent (totalExponent mantissa exponent)).toNat) :
    Roundable (mantissa <<< places) (exponent - places) := by
  rw [targetExponent_eq] at same
  by_cases small : exponent - places ≤ -1074
  · exact Or.inr small
  · left
    have least := Nat.log2_self_le positive.ne'
    rw [Nat.shiftLeft_eq, leastMantissa_eq]
    calc 2 ^ 52 ≤ 2 ^ (mantissa.log2 + places) := Nat.pow_le_pow_right (by decide) (by omega)
      _ = 2 ^ mantissa.log2 * 2 ^ places := Nat.pow_add ..
      _ ≤ mantissa * 2 ^ places := Nat.mul_le_mul_right _ least

/-- A shift to a smaller exponent keeps the number. -/
theorem shiftLeft_mul_zpow (mantissa places : Nat) (exponent : Int) :
    ((mantissa <<< places : Nat) * 2 ^ (exponent - places) : ℚ) = mantissa * 2 ^ exponent := by
  rw [Nat.shiftLeft_eq, zpow_sub₀ (by norm_num), zpow_natCast]
  push_cast
  field_simp

theorem isRounded_round (sign : Sign) {mantissa : Nat} (positive : 0 < mantissa) (exponent : Int) :
    IsRounded (.ofModel (Float.Model.pack
      (UnpackedFloat.round Format.binary64 sign mantissa exponent)))
        (withSign sign (mantissa * 2 ^ exponent)) := by
  have roundable := roundable_round positive exponent rfl
  rw [UnpackedFloat.round, decreaseExponent]
  generalize (exponent -
    Format.binary64.targetExponent (totalExponent mantissa exponent)).toNat = places at roundable ⊢
  rw [← shiftLeft_mul_zpow mantissa places exponent]
  exact isRounded_roundWithAccuracy sign roundable (truncates_exact _)

theorem isRounded_normalize (mantissa exponent : Int) :
    IsRounded (.ofModel (Float.Model.pack
      (UnpackedFloat.normalize Format.binary64 mantissa exponent .positive)))
        (mantissa * 2 ^ exponent) := by
  unfold UnpackedFloat.normalize
  rcases Int.lt_trichotomy mantissa 0 with negative | rfl | positive
  · have rounded := isRounded_round .negative (Int.pos_iff_toNat_pos.mp (Int.neg_pos_of_neg negative)) exponent
    have size : (((-mantissa).toNat : Int) : ℚ) = -mantissa := by
      rw [Int.toNat_of_nonneg (by omega), Int.cast_neg]
    rw [Int.cast_natCast] at size
    rw [size, neg_mul, withSign, neg_neg] at rounded
    rw [Int.compare_eq_lt.mpr negative]
    exact rounded
  · rw [Int.cast_zero, zero_mul]
    exact isRounded_pack (.zero .positive) rfl
  · have rounded := isRounded_round .positive (Int.pos_iff_toNat_pos.mp positive) exponent
    have size : ((mantissa.toNat : Int) : ℚ) = mantissa := by
      rw [Int.toNat_of_nonneg (by omega)]
    rw [Int.cast_natCast] at size
    rw [size] at rounded
    rw [Int.compare_eq_gt.mpr positive]
    exact rounded

/-! Operations -/

theorem roundable_mul {mantissa mantissa' : Nat} {exponent exponent' : Int} (fits : Fits mantissa exponent)
    (fits' : Fits mantissa' exponent') (positive : 0 < mantissa) (positive' : 0 < mantissa') :
    Roundable (mantissa * mantissa') (exponent + exponent') := by
  rcases fits.leading with smallest | leading
  · rcases fits'.leading with smallest' | leading'
    · exact Or.inr (by omega)
    · exact Or.inl (leading'.trans (Nat.le_mul_of_pos_left _ positive))
  · exact Or.inl (leading.trans (Nat.le_mul_of_pos_right _ positive'))

/-- The rest of a division tells where the quotient lies in its gap. -/
theorem truncates_quotient (dividend : Nat) {divisor : Nat} (positive : 0 < divisor) :
    Truncates (.ofMantissaAndAccuracy (dividend / divisor)
      (accuracyOfFraction (dividend % divisor) divisor)) (dividend / divisor) := by
  have filled : (0 : ℚ) < divisor := by exact_mod_cast positive
  have whole : (dividend : ℚ) = divisor * (dividend / divisor : Nat) + (dividend % divisor : Nat) := by
    exact_mod_cast (Nat.div_add_mod dividend divisor).symm
  have rest : dividend % divisor < divisor := Nat.mod_lt dividend positive
  generalize dividend / divisor = quotient at whole ⊢
  generalize dividend % divisor = left at whole rest ⊢
  have value : (dividend / divisor : ℚ) = quotient + left / divisor := by
    rw [whole]
    field_simp
  rw [value, accuracyOfFraction]
  split
  · rename_i none
    rw [none, Nat.cast_zero, zero_div, add_zero]
    exact truncates_exact quotient
  · rename_i some
    have away : (0 : ℚ) < left / divisor :=
      div_pos (by exact_mod_cast Nat.pos_of_ne_zero some) filled
    have inside : (left / divisor : ℚ) < 1 := (div_lt_one filled).mpr (by exact_mod_cast rest)
    generalize fraction : (left / divisor : ℚ) = part at away inside ⊢
    rw [div_eq_iff filled.ne'] at fraction
    rcases Nat.lt_trichotomy (2 * left) divisor with lower | middle | upper
    · have doubled : (2 * left : ℚ) < divisor := by exact_mod_cast lower
      have place : part < 1 / 2 := by nlinarith
      rw [Nat.compare_eq_lt.mpr lower]
      constructor <;> simp [counted, ExtendedMantissa.ofMantissaAndAccuracy] <;> linarith
    · have doubled : (2 * left : ℚ) = divisor := by exact_mod_cast middle
      have place : part = 1 / 2 := by nlinarith
      rw [Nat.compare_eq_eq.mpr middle]
      constructor <;> simp [counted, ExtendedMantissa.ofMantissaAndAccuracy] <;> linarith
    · have doubled : (divisor : ℚ) < 2 * left := by exact_mod_cast upper
      have place : 1 / 2 < part := by nlinarith
      rw [Nat.compare_eq_gt.mpr upper]
      constructor <;> simp [counted, ExtendedMantissa.ofMantissaAndAccuracy] <;> linarith

/-- The dividend is shifted so far that its quotient has all bits of a mantissa. -/
theorem roundable_div {mantissa mantissa' : Nat} {exponent : Int} (positive : 0 < mantissa)
    (positive' : 0 < mantissa') {places : Nat}
    (enough : exponent ≤ -1074 ∨ mantissa'.log2 + 53 ≤ mantissa.log2 + places) :
    Roundable ((mantissa <<< places) / mantissa') exponent := by
  rcases enough with small | long
  · exact Or.inr small
  · left
    have least := Nat.log2_self_le positive.ne'
    have most := Nat.lt_log2_self (n := mantissa')
    rw [Nat.le_div_iff_mul_le positive', Nat.shiftLeft_eq, leastMantissa_eq]
    calc 2 ^ 52 * mantissa' ≤ 2 ^ 52 * 2 ^ (mantissa'.log2 + 1) := Nat.mul_le_mul_left _ most.le
      _ = 2 ^ (mantissa'.log2 + 53) := by
          rw [← Nat.pow_add]
          congr 1
          omega
      _ ≤ 2 ^ (mantissa.log2 + places) := Nat.pow_le_pow_right (by decide) long
      _ = 2 ^ mantissa.log2 * 2 ^ places := Nat.pow_add ..
      _ ≤ mantissa * 2 ^ places := Nat.mul_le_mul_right _ least

section Operations

variable {first second : UnpackedFloat} (left : Unpacked first) (right : Unpacked second)
  (finite : first.isFinite = true) (finite' : second.isFinite = true)

/-- Mantissas are added at the smaller exponent. -/
theorem aligned_add (sign sign' : Sign) (mantissa mantissa' : Nat) (exponent exponent' : Int) :
    let limit := min exponent exponent'
    ((sign.apply (mantissa <<< (exponent - limit).toNat : Nat) +
        sign'.apply (mantissa' <<< (exponent' - limit).toNat : Nat) : Int) * 2 ^ limit : ℚ) =
      withSign sign (mantissa * 2 ^ exponent) + withSign sign' (mantissa' * 2 ^ exponent') := by
  intro limit
  have aligned : ∀ (sign : Sign) (mantissa : Nat) (exponent : Int), limit ≤ exponent →
      ((sign.apply (mantissa <<< (exponent - limit).toNat : Nat) : Int) * 2 ^ limit : ℚ) =
        withSign sign (mantissa * 2 ^ exponent) := by
    intro sign mantissa exponent least
    have place : exponent - ((exponent - limit).toNat : Int) = limit := by omega
    have shifted := shiftLeft_mul_zpow mantissa (exponent - limit).toNat exponent
    rw [place] at shifted
    rw [← withSign_apply, ← shifted]
    cases sign with
    | negative => exact neg_mul _ _
    | positive => rfl
  rw [Int.cast_add, add_mul, aligned _ _ _ (Int.min_le_left _ _), aligned _ _ _ (Int.min_le_right _ _)]

include left right finite finite'

theorem isRounded_unpacked_add :
    IsRounded (.ofModel (Float.Model.pack (UnpackedFloat.add Format.binary64 first second)))
      (exactValue first + exactValue second) := by
  cases left with
  | infinity => cases finite
  | zero sign =>
    rw [exactValue_zero, zero_add]
    cases right with
    | infinity => cases finite'
    | zero sign' => cases sign <;> cases sign' <;> exact isRounded_pack (.zero _) rfl
    | finite sign' positive' fits' => exact isRounded_pack (.finite sign' positive' fits') rfl
  | @finite sign mantissa exponent positive fits =>
    cases right with
    | infinity => cases finite'
    | zero sign' =>
      rw [exactValue_zero, add_zero]
      exact isRounded_pack (.finite sign positive fits) rfl
    | @finite sign' mantissa' exponent' positive' fits' =>
      have sum := aligned_add sign sign' mantissa mantissa' exponent exponent'
      rw [exactValue_finite, exactValue_finite, ← sum]
      exact isRounded_normalize _ _

theorem isRounded_unpacked_sub :
    IsRounded (.ofModel (Float.Model.pack (UnpackedFloat.sub Format.binary64 first second)))
      (exactValue first - exactValue second) := by
  have turned : Unpacked second.neg ∧ second.neg.isFinite = true ∧
      exactValue second.neg = -exactValue second := by
    cases right with
    | zero sign => exact ⟨.zero _, rfl, neg_zero.symm⟩
    | infinity => cases finite'
    | finite sign positive fits => exact ⟨.finite _ positive fits, rfl, withSign_neg sign _⟩
  have same : UnpackedFloat.sub Format.binary64 first second =
      UnpackedFloat.add Format.binary64 first second.neg := by
    cases left with
    | infinity => cases finite
    | zero sign => cases right <;> rfl
    | finite sign positive fits =>
      cases right with
      | infinity => cases finite'
      | zero sign' => rfl
      | finite sign' positive' fits' =>
        change UnpackedFloat.normalize _ (sign.apply _ - sign'.apply _) _ _ =
          UnpackedFloat.normalize _ (sign.apply _ + (-sign').apply _) _ _
        rw [apply_neg, Int.sub_eq_add_neg]
  rw [same, sub_eq_add_neg, ← turned.2.2]
  exact isRounded_unpacked_add left turned.1 finite turned.2.1

theorem isRounded_unpacked_mul :
    IsRounded (.ofModel (Float.Model.pack (UnpackedFloat.mul Format.binary64 first second)))
      (exactValue first * exactValue second) := by
  cases left with
  | infinity => cases finite
  | zero sign =>
    rw [exactValue_zero, zero_mul]
    cases right with
    | infinity => cases finite'
    | zero sign' => exact isRounded_pack (.zero _) rfl
    | finite sign' positive' fits' => exact isRounded_pack (.zero _) rfl
  | @finite sign mantissa exponent positive fits =>
    cases right with
    | infinity => cases finite'
    | zero sign' =>
      rw [exactValue_zero, mul_zero]
      exact isRounded_pack (.zero _) rfl
    | @finite sign' mantissa' exponent' positive' fits' =>
      have product : (mantissa * 2 ^ exponent * (mantissa' * 2 ^ exponent') : ℚ) =
          (mantissa * mantissa' : Nat) * 2 ^ (exponent + exponent') := by
        rw [zpow_add₀ (by norm_num), mul_mul_mul_comm]
        push_cast
        rfl
      rw [exactValue_finite, exactValue_finite, ← withSign_mul, product]
      exact isRounded_roundWithAccuracy _ (roundable_mul fits fits' positive positive') (truncates_exact _)

/-- No quotient by zero is rounded, since it is infinite or no number. -/
theorem isRounded_unpacked_div (filled : exactValue second ≠ 0) :
    IsRounded (.ofModel (Float.Model.pack (UnpackedFloat.div Format.binary64 first second)))
      (exactValue first / exactValue second) := by
  cases right with
  | infinity => cases finite'
  | zero sign' => exact absurd rfl filled
  | @finite sign' mantissa' exponent' positive' fits' =>
    cases left with
    | infinity => cases finite
    | zero sign =>
      rw [exactValue_zero, zero_div]
      exact isRounded_pack (.zero _) rfl
    | @finite sign mantissa exponent positive fits =>
      have target : Format.binary64.targetExponent
          (totalExponent mantissa exponent - totalExponent mantissa' exponent') =
            max (mantissa.log2 + exponent - (mantissa'.log2 + exponent') - 53) (-1074) := by
        have size : Format.binary64.mantissaBits = 53 := rfl
        simp only [Format.targetExponent, totalExponent, size, Format.minExponent]
        omega
      have divided : UnpackedFloat.div Format.binary64 (.finite sign mantissa exponent positive)
            (.finite sign' mantissa' exponent' positive') =
          roundWithAccuracy Format.binary64 (sign / sign')
            (divCore Format.binary64 mantissa exponent mantissa' exponent').1
            (divCore Format.binary64 mantissa exponent mantissa' exponent').2.1
            (divCore Format.binary64 mantissa exponent mantissa' exponent').2.2 := rfl
      rw [divided, divCore, exactValue_finite, exactValue_finite, ← withSign_div]
      generalize Format.binary64.targetExponent
        (totalExponent mantissa exponent - totalExponent mantissa' exponent') = limit at target ⊢
      obtain ⟨places, same⟩ : ∃ places : Nat,
          min (exponent - exponent') limit = exponent - exponent' - places :=
        ⟨(exponent - exponent' - min (exponent - exponent') limit).toNat, by omega⟩
      have shift : (exponent - exponent' - (exponent - exponent' - places)).toNat = places := by omega
      have quotient : (mantissa * 2 ^ exponent / (mantissa' * 2 ^ exponent') : ℚ) =
          (mantissa <<< places : Nat) / mantissa' * 2 ^ (exponent - exponent' - places) := by
        rw [div_mul_eq_mul_div, shiftLeft_mul_zpow, zpow_sub₀ (by norm_num)]
        field_simp
      simp only [same, shift]
      rw [quotient]
      exact isRounded_roundWithAccuracy _ (roundable_div positive positive' (by omega))
        (truncates_quotient _ positive')

end Operations

section Doubles

variable {first second : Float} (left : first.isFinite = true) (right : second.isFinite = true)

include left right

theorem isRounded_add : IsRounded (first + second) (quantity first + quantity second) :=
  isRounded_unpacked_add (unpacked_toModel (isNaN_of_isFinite left)).1
    (unpacked_toModel (isNaN_of_isFinite right)).1 left right

theorem isRounded_sub : IsRounded (first - second) (quantity first - quantity second) :=
  isRounded_unpacked_sub (unpacked_toModel (isNaN_of_isFinite left)).1
    (unpacked_toModel (isNaN_of_isFinite right)).1 left right

theorem isRounded_mul : IsRounded (first * second) (quantity first * quantity second) :=
  isRounded_unpacked_mul (unpacked_toModel (isNaN_of_isFinite left)).1
    (unpacked_toModel (isNaN_of_isFinite right)).1 left right

theorem isRounded_div (filled : quantity second ≠ 0) :
    IsRounded (first / second) (quantity first / quantity second) :=
  isRounded_unpacked_div (unpacked_toModel (isNaN_of_isFinite left)).1
    (unpacked_toModel (isNaN_of_isFinite right)).1 left right filled

/-- A sum is not below a part if the other one is not negative. -/
theorem le_add_of_nonneg (nonneg : 0 ≤ second) : first ≤ first + second := by
  rw [le_iff_quantity_le rfl right, quantity_zero] at nonneg
  apply (isRounded_quantity left).le_of_le (isRounded_add left right)
  linarith

protected theorem sub_nonpos_of_le (ordered : first ≤ second) : first - second ≤ 0 := by
  rw [le_iff_quantity_le left right] at ordered
  apply (isRounded_sub left right).le_of_le (isRounded_quantity rfl)
  rw [quantity_zero]
  linarith

omit right

theorem sub_self_eq_zero : first - first = 0 := by
  have difference : first - first = .ofModel (Float.Model.pack
      (UnpackedFloat.sub Format.binary64 first.toModel.unpack first.toModel.unpack)) := rfl
  change first.toModel.unpack.isFinite = true at left
  rw [difference]
  generalize first.toModel.unpack = parts at left ⊢
  cases parts with
  | notANumber => cases left
  | infinity sign => cases left
  | zero sign => cases sign <;> rfl
  | finite sign mantissa exponent positive =>
    change Float.ofModel (Float.Model.pack
      (UnpackedFloat.normalize _ (sign.apply _ - sign.apply _) _ _)) = 0
    rw [Int.sub_self]
    rfl

end Doubles

/-- The quotient of a part and the whole lies between zero and one. -/
theorem div_inside {part whole : Float} (nonneg : 0 ≤ part) (bounded : part ≤ whole)
    (positive : 0 < whole) (finite : whole.isFinite = true) :
    (part / whole).isNaN = false ∧ 0 ≤ part / whole ∧ part / whole ≤ 1 := by
  have left : part.isFinite = true := isFinite_of_between rfl finite nonneg bounded
  rw [le_iff_quantity_le rfl left, quantity_zero] at nonneg
  rw [le_iff_quantity_le left finite] at bounded
  rw [lt_iff_quantity_lt rfl finite, quantity_zero] at positive
  have rounded := isRounded_div left finite positive.ne'
  refine ⟨rounded.isNumber, ?_, ?_⟩
  · apply (isRounded_quantity rfl).le_of_le rounded
    rw [quantity_zero]
    positivity
  · apply rounded.le_of_le (isRounded_quantity rfl)
    rw [quantity_one]
    exact (div_le_one positive).mpr bounded

theorem isRounded_abs {value : Float} (finite : value.isFinite = true) :
    IsRounded value.abs |quantity value| := by
  have packed : value.abs = .ofModel (Float.Model.pack value.toModel.unpack.abs) := rfl
  obtain ⟨unpacked, _⟩ := unpacked_toModel (isNaN_of_isFinite finite)
  change value.toModel.unpack.isFinite = true at finite
  rw [packed, quantity]
  generalize value.toModel.unpack = parts at unpacked finite ⊢
  cases unpacked with
  | infinity sign => cases finite
  | zero sign =>
    rw [exactValue_zero, abs_zero]
    exact isRounded_pack (.zero .positive) rfl
  | @finite sign mantissa exponent positive fits =>
    have low : (0 : ℚ) ≤ mantissa * 2 ^ exponent := by positivity
    rw [exactValue_finite, abs_withSign sign low]
    exact isRounded_pack (.finite .positive positive fits) rfl

/-- An infinity in a sum is not undone by a finite number. -/
theorem isFinite_of_isFinite_add {first second : Float} (left : first.isFinite = true)
    (finite : (first + second).isFinite = true) (number : second.isNaN = false) :
    second.isFinite = true := by
  have sum : first + second = .ofModel (Float.Model.pack
      (UnpackedFloat.add Format.binary64 first.toModel.unpack second.toModel.unpack)) := rfl
  change first.toModel.unpack.isFinite = true at left
  change second.toModel.unpack.isNaN = false at number
  change second.toModel.unpack.isFinite = true
  rw [sum] at finite
  generalize first.toModel.unpack = parts at left finite
  generalize second.toModel.unpack = parts' at number finite ⊢
  cases parts' with
  | notANumber => cases number
  | zero sign => rfl
  | finite sign mantissa exponent positive => rfl
  | infinity sign =>
    have infinite : (Float.ofModel (Float.Model.pack (.infinity sign))).isFinite = false := by
      cases sign <;> rfl
    cases parts with
    | notANumber => cases left
    | infinity sign' => cases left
    | zero sign' => exact absurd (finite.symm.trans infinite) Bool.noConfusion
    | finite sign' mantissa exponent positive =>
      exact absurd (finite.symm.trans infinite) Bool.noConfusion

theorem isRounded_toFloat (number : UInt64) : IsRounded number.toFloat number.toNat := by
  have rounded := isRounded_normalize number.toNat 0
  rw [zpow_zero, mul_one, Int.cast_natCast] at rounded
  exact rounded

end FlowAudit.Decimal
