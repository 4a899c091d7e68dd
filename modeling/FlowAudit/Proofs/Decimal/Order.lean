import FlowAudit.Decimal.Shortest

set_option autoImplicit false

/-!
The order of doubles. Every double that is a number has a level, an integer that is read off its bits, and
numbers compare as their levels do (`lt_iff_level_lt`, `le_iff_level_le`, `beq_iff_level_eq`). Zeros of
either sign have one level.
-/
namespace FlowAudit.Decimal

open Float.Model Float.Model.UnpackedFloat

/-- The number of steps from zero up or down to a double. -/
def level (value : Float) : Int :=
  let bits := value.toBits.toNat
  if bits < signBit then bits else signBit - bits

/-- The steps from zero to a mantissa times a power of two. -/
def magnitude (mantissa : Nat) (exponent : Int) : Int :=
  (exponent + 1074) * leastMantissa + mantissa

/-- The level of an unpacked number. -/
def height : UnpackedFloat → Int
  | .notANumber => 0
  | .zero _ => 0
  | .infinity sign => sign.apply (2047 * leastMantissa)
  | .finite sign mantissa exponent _ => sign.apply (magnitude mantissa exponent)

/-- A mantissa and an exponent as the bits of a double hold them: all mantissas but those with the least
exponent have their leading bit. -/
structure Fits (mantissa : Nat) (exponent : Int) : Prop where
  bounded : mantissa < 2 * leastMantissa
  least : -1074 ≤ exponent
  most : exponent ≤ 971
  leading : exponent = -1074 ∨ leastMantissa ≤ mantissa

/-- The number may be unpacked from the bits of a double. -/
inductive Unpacked : UnpackedFloat → Prop
  | zero (sign : Sign) : Unpacked (.zero sign)
  | infinity (sign : Sign) : Unpacked (.infinity sign)
  | finite (sign : Sign) {mantissa : Nat} {exponent : Int} (positive : 0 < mantissa)
      (fits : Fits mantissa exponent) : Unpacked (.finite sign mantissa exponent positive)

namespace Fits

variable {mantissa mantissa' : Nat} {exponent exponent' : Int}

theorem magnitude_lt (fits : Fits mantissa exponent) :
    magnitude mantissa exponent < 2047 * leastMantissa := by
  have bounded := fits.bounded
  have most := fits.most
  simp only [magnitude, leastMantissa] at bounded ⊢
  omega

theorem magnitude_pos (fits : Fits mantissa exponent) (positive : 0 < mantissa) :
    0 < magnitude mantissa exponent := by
  have least := fits.least
  simp only [magnitude, leastMantissa]
  omega

/-- A larger exponent counts more than any mantissa. -/
theorem magnitude_lt_of_exponent_lt (fits : Fits mantissa exponent) (fits' : Fits mantissa' exponent')
    (smaller : exponent < exponent') : magnitude mantissa exponent < magnitude mantissa' exponent' := by
  have bounded := fits.bounded
  have least := fits.least
  have leading := fits'.leading
  simp only [magnitude, leastMantissa] at bounded leading ⊢
  omega

theorem compare_magnitude (fits : Fits mantissa exponent) (fits' : Fits mantissa' exponent') :
    (compare exponent exponent').then (compare mantissa mantissa') =
      compare (magnitude mantissa exponent) (magnitude mantissa' exponent') := by
  rcases Int.lt_trichotomy exponent exponent' with smaller | rfl | larger
  · have less := fits.magnitude_lt_of_exponent_lt fits' smaller
    rw [Int.compare_eq_lt.mpr smaller, Int.compare_eq_lt.mpr less]
    rfl
  · have same : compare exponent exponent = .eq := Int.compare_eq_eq.mpr rfl
    rw [same, Ordering.eq_then]
    rcases Nat.lt_trichotomy mantissa mantissa' with smaller | rfl | larger
    · have less : magnitude mantissa exponent < magnitude mantissa' exponent := by
        simp only [magnitude]
        omega
      rw [Nat.compare_eq_lt.mpr smaller, Int.compare_eq_lt.mpr less]
    · rw [Nat.compare_eq_eq.mpr rfl, Int.compare_eq_eq.mpr rfl]
    · have more : magnitude mantissa' exponent < magnitude mantissa exponent := by
        simp only [magnitude]
        omega
      rw [Nat.compare_eq_gt.mpr larger, Int.compare_eq_gt.mpr more]
  · have more := fits'.magnitude_lt_of_exponent_lt fits larger
    rw [Int.compare_eq_gt.mpr larger, Int.compare_eq_gt.mpr more]
    rfl

/-- Finite doubles of either sign lie between the infinities. -/
theorem apply_magnitude_inside (fits : Fits mantissa exponent) (positive : 0 < mantissa) (sign : Sign) :
    -(2047 * leastMantissa : Int) < sign.apply (magnitude mantissa exponent) ∧
      sign.apply (magnitude mantissa exponent) < (2047 * leastMantissa : Int) := by
  have away := fits.magnitude_pos positive
  have inside := fits.magnitude_lt
  cases sign <;> simp only [Sign.apply] <;> omega

end Fits

/-- Below zero the order is turned round. -/
theorem swap_compare (first second : Int) :
    (compare first second).swap = compare (-first) (-second) := by
  rw [Int.compare_swap]
  rcases Int.lt_trichotomy second first with smaller | rfl | larger
  · rw [Int.compare_eq_lt.mpr smaller, Int.compare_eq_lt.mpr (Int.neg_lt_neg smaller)]
  · rw [Int.compare_eq_eq.mpr rfl, Int.compare_eq_eq.mpr rfl]
  · rw [Int.compare_eq_gt.mpr larger, Int.compare_eq_gt.mpr (Int.neg_lt_neg larger)]

/-- Doubles compare as their heights do. Only among finite doubles of one sign is there anything to count. -/
theorem compare_eq_of_unpacked {first second : UnpackedFloat} (left : Unpacked first)
    (right : Unpacked second) :
    first.compare second = some (compare (height first) (height second)) := by
  cases left with
  | zero sign =>
    cases right with
    | zero sign' => rfl
    | infinity sign' => cases sign' <;> rfl
    | finite sign' positive' fits' =>
      have away := fits'.magnitude_pos positive'
      cases sign' with
      | positive => exact congrArg some (Int.compare_eq_lt.mpr away).symm
      | negative => exact congrArg some (Int.compare_eq_gt.mpr (Int.neg_neg_of_pos away)).symm
  | infinity sign =>
    cases right with
    | zero sign' => cases sign <;> rfl
    | infinity sign' => cases sign <;> cases sign' <;> rfl
    | finite sign' positive' fits' =>
      obtain ⟨above, below⟩ := fits'.apply_magnitude_inside positive' sign'
      cases sign with
      | positive => exact congrArg some (Int.compare_eq_gt.mpr below).symm
      | negative => exact congrArg some (Int.compare_eq_lt.mpr above).symm
  | finite sign positive fits =>
    have away := fits.magnitude_pos positive
    cases right with
    | zero sign' =>
      cases sign with
      | positive => exact congrArg some (Int.compare_eq_gt.mpr away).symm
      | negative => exact congrArg some (Int.compare_eq_lt.mpr (Int.neg_neg_of_pos away)).symm
    | infinity sign' =>
      obtain ⟨above, below⟩ := fits.apply_magnitude_inside positive sign
      cases sign' with
      | positive => exact congrArg some (Int.compare_eq_lt.mpr below).symm
      | negative => exact congrArg some (Int.compare_eq_gt.mpr above).symm
    | finite sign' positive' fits' =>
      have away' := fits'.magnitude_pos positive'
      have counted := fits.compare_magnitude fits'
      cases sign with
      | positive =>
        cases sign' with
        | positive => exact congrArg some counted
        | negative =>
          have more := Int.lt_trans (Int.neg_neg_of_pos away') away
          exact congrArg some (Int.compare_eq_gt.mpr more).symm
      | negative =>
        cases sign' with
        | positive =>
          have less := Int.lt_trans (Int.neg_neg_of_pos away) away'
          exact congrArg some (Int.compare_eq_lt.mpr less).symm
        | negative =>
          have mirrored := (congrArg Ordering.swap counted).trans (swap_compare _ _)
          exact congrArg some mirrored

/-! Unpacking -/

section Unpacking

variable (bits : BitVec Format.binary64.numBits)

theorem unpackMantissa_lt : (unpackMantissa bits).toNat < leastMantissa :=
  (unpackMantissa bits).isLt

theorem unpackExponent_lt : (unpackExponent bits).toNat < 2048 :=
  (unpackExponent bits).isLt

theorem toNat_append_unpackMantissa :
    (1#1 ++ unpackMantissa bits).toNat = leastMantissa + (unpackMantissa bits).toNat := by
  have bound := (unpackMantissa bits).isLt
  have one : (1#1).toNat = 1 := rfl
  rw [BitVec.toNat_append, one, Nat.shiftLeft_eq, Nat.one_mul, Nat.or_comm,
    Nat.or_two_pow_eq_add_of_lt bound, Nat.add_comm]
  rfl

/-- The bits below the sign are those of the exponent and then those of the mantissa. -/
theorem toNat_mod_signBit :
    bits.toNat % signBit =
      (unpackExponent bits).toNat * leastMantissa + (unpackMantissa bits).toNat := by
  have mantissa : (unpackMantissa bits).toNat = bits.toNat % leastMantissa := by
    simp [unpackMantissa, BitVec.extractLsb_toNat, leastMantissa]
  have exponent : (unpackExponent bits).toNat = bits.toNat / leastMantissa % 2048 := by
    simp [unpackExponent, BitVec.extractLsb_toNat, Nat.shiftRight_eq_div_pow, leastMantissa]
  rw [mantissa, exponent]
  simp only [leastMantissa, signBit]
  omega

theorem unpackSign_eq_zero_iff : unpackSign bits = 0#1 ↔ bits.toNat < signBit := by
  have value : (unpackSign bits).toNat = bits.toNat / signBit % 2 := by
    change ((bits.extractLsb 63 63).cast _).toNat = _
    rw [BitVec.toNat_cast, BitVec.extractLsb_toNat, Nat.shiftRight_eq_div_pow]
    rfl
  have bound : bits.toNat < 2 * signBit := bits.isLt
  rw [← BitVec.toNat_inj, value]
  simp only [BitVec.toNat_ofNat, signBit] at bound ⊢
  omega

theorem apply_ofBitVec_unpackSign :
    (Sign.ofBitVec (unpackSign bits)).apply (bits.toNat % signBit : Nat) =
      if bits.toNat < signBit then (bits.toNat : Int) else signBit - bits.toNat := by
  have bound : bits.toNat < 2 * signBit := bits.isLt
  simp only [Sign.ofBitVec, unpackSign_eq_zero_iff]
  split
  · rename_i positive
    rw [Nat.mod_eq_of_lt positive]
    rfl
  · rename_i negative
    have rest : bits.toNat % signBit = bits.toNat - signBit := by
      rw [Nat.mod_eq_sub_mod (by omega), Nat.mod_eq_of_lt (by omega)]
    rw [rest]
    simp only [Sign.apply]
    omega

/-- The bits below the sign count the magnitude. -/
theorem unpacked_unpack (number : (UnpackedFloat.unpack Format.binary64 bits).isNaN = false) :
    Unpacked (UnpackedFloat.unpack Format.binary64 bits) ∧
      height (UnpackedFloat.unpack Format.binary64 bits) =
        (Sign.ofBitVec (unpackSign bits)).apply (bits.toNat % signBit : Nat) := by
  have mantissa := unpackMantissa_lt bits
  have exponent := unpackExponent_lt bits
  have bias : (Format.binary64.exponentBias : Int) = 1023 := rfl
  rw [toNat_mod_signBit]
  unfold UnpackedFloat.unpack at number ⊢
  dsimp only at number ⊢
  by_cases largest : unpackExponent bits = -1#_
  · rw [if_pos largest] at number ⊢
    by_cases none : unpackMantissa bits = 0#_
    · have ones : (unpackExponent bits).toNat = 2047 := congrArg BitVec.toNat largest
      have empty : (unpackMantissa bits).toNat = 0 := congrArg BitVec.toNat none
      rw [if_pos none, ones, empty, Nat.add_zero, Int.natCast_mul]
      exact ⟨Unpacked.infinity _, rfl⟩
    · rw [if_neg none] at number
      cases number
  · rw [if_neg largest]
    by_cases least : unpackExponent bits = 0#_
    · rw [if_pos least]
      by_cases none : unpackMantissa bits = 0#_
      · have zeros : (unpackExponent bits).toNat = 0 := congrArg BitVec.toNat least
        have empty : (unpackMantissa bits).toNat = 0 := congrArg BitVec.toNat none
        rw [dif_pos none, zeros, empty, Nat.zero_mul]
        refine ⟨Unpacked.zero _, ?_⟩
        cases Sign.ofBitVec (unpackSign bits) <;> rfl
      · rw [dif_neg none]
        refine ⟨Unpacked.finite _ _ ⟨?_, ?_, ?_, ?_⟩, congrArg (Sign.apply _) ?_⟩
        all_goals
          simp only [magnitude, leastMantissa, bias, least, BitVec.toNat_ofNat] at mantissa ⊢
          omega
    · have few : (unpackExponent bits).toNat ≠ 2047 := fun same => largest (BitVec.eq_of_toNat_eq same)
      have some : (unpackExponent bits).toNat ≠ 0 := fun same => least (BitVec.eq_of_toNat_eq same)
      have leading := toNat_append_unpackMantissa bits
      rw [if_neg least]
      refine ⟨Unpacked.finite _ _ ⟨?_, ?_, ?_, ?_⟩, congrArg (Sign.apply _) ?_⟩
      all_goals
        simp only [magnitude, leastMantissa, bias, leading] at mantissa ⊢
        omega

end Unpacking

/-! Numbers and their levels -/

section Numbers

variable {first second : Float} (left : first.isNaN = false) (right : second.isNaN = false)

include left right

theorem compare_unpack_eq :
    first.toModel.unpack.compare second.toModel.unpack = some (compare (level first) (level second)) := by
  obtain ⟨unpacked, same⟩ := unpacked_unpack first.toModel.toBits.toBitVec left
  obtain ⟨unpacked', same'⟩ := unpacked_unpack second.toModel.toBits.toBitVec right
  have counted := compare_eq_of_unpacked unpacked unpacked'
  rw [same, same', apply_ofBitVec_unpackSign, apply_ofBitVec_unpackSign] at counted
  exact counted

theorem lt_iff_level_lt : first < second ↔ level first < level second := by
  have same : first < second ↔
      (first.toModel.unpack.compare second.toModel.unpack == some .lt) = true := decide_eq_true_iff
  rw [same, compare_unpack_eq left right, beq_iff_eq, Option.some.injEq, Int.compare_eq_lt]

theorem le_iff_level_le : first ≤ second ↔ level first ≤ level second := by
  have same : first ≤ second ↔
      (first.toModel.unpack.compare second.toModel.unpack).any (·.isLE) = true := decide_eq_true_iff
  rw [same, compare_unpack_eq left right, Option.any_some, Int.isLE_compare]

theorem beq_iff_level_eq : (first == second) = true ↔ level first = level second := by
  change (first.toModel.unpack.compare second.toModel.unpack == some .eq) = true ↔ _
  rw [compare_unpack_eq left right, beq_iff_eq, Option.some.injEq, Int.compare_eq_eq]

end Numbers

/-- Only numbers are compared. -/
theorem isNaN_of_le {first second : Float} (ordered : first ≤ second) :
    first.isNaN = false ∧ second.isNaN = false := by
  have same : (first.toModel.unpack.compare second.toModel.unpack).any (·.isLE) = true :=
    decide_eq_true_iff.mp ordered
  change first.toModel.unpack.isNaN = false ∧ second.toModel.unpack.isNaN = false
  generalize first.toModel.unpack = left at same ⊢
  generalize second.toModel.unpack = right at same ⊢
  cases left <;> cases right <;> first | exact ⟨rfl, rfl⟩ | cases same

/-! Comparisons of any doubles. One that holds has numbers on both sides, so levels decide. -/

section Comparisons

variable {first second third : Float}

protected theorem le_of_lt (ordered : first < second) : first ≤ second := by
  have same : (first.toModel.unpack.compare second.toModel.unpack == some .lt) = true :=
    decide_eq_true_iff.mp ordered
  rw [beq_iff_eq] at same
  have below : (first.toModel.unpack.compare second.toModel.unpack).any (·.isLE) = true := by
    rw [same]
    rfl
  exact decide_eq_true_iff.mpr below

theorem isNaN_of_lt (ordered : first < second) : first.isNaN = false ∧ second.isNaN = false :=
  isNaN_of_le (Decimal.le_of_lt ordered)

protected theorem lt_of_le_of_lt (ordered : first ≤ second) (below : second < third) : first < third := by
  obtain ⟨left, middle⟩ := isNaN_of_le ordered
  have right := (isNaN_of_lt below).2
  rw [le_iff_level_le left middle] at ordered
  rw [lt_iff_level_lt middle right] at below
  rw [lt_iff_level_lt left right]
  omega

protected theorem lt_of_lt_of_le (below : first < second) (ordered : second ≤ third) : first < third := by
  obtain ⟨middle, right⟩ := isNaN_of_le ordered
  have left := (isNaN_of_lt below).1
  rw [lt_iff_level_lt left middle] at below
  rw [le_iff_level_le middle right] at ordered
  rw [lt_iff_level_lt left right]
  omega

protected theorem not_le_of_lt (below : first < second) : ¬second ≤ first := by
  obtain ⟨left, right⟩ := isNaN_of_lt below
  rw [lt_iff_level_lt left right] at below
  rw [le_iff_level_le right left]
  omega

/-- Among numbers one of two comparisons holds. -/
protected theorem not_le_iff_lt (left : first.isNaN = false) (right : second.isNaN = false) :
    ¬second ≤ first ↔ first < second := by
  rw [le_iff_level_le right left, lt_iff_level_lt left right]
  omega

end Comparisons

end FlowAudit.Decimal
