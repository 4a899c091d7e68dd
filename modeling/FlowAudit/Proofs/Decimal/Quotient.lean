import FlowAudit.Proofs.Decimal.Arithmetic

set_option autoImplicit false

/-!
Quotients of natural numbers as doubles. The double of a natural number and the quotient of two doubles
are the doubles nearest to the exact values (`isNearest_ofNat`, `isNearest_div`), so that shares of one
total grow with the part (`ofNat_div_ofNat_le`).
-/
namespace FlowAudit.Decimal

open Float.Model Float.Model.UnpackedFloat

/-- The double is the one nearest to a positive number; beyond the largest double that is the infinity. -/
structure IsNearest (value : Float) (number : ℚ) : Prop where
  isNumber : value.isNaN = false
  rounds : ∃ nearest, RoundsTo number nearest ∧ level value = min nearest topLevel

/-- The double is a mantissa times a power of two, neither zero nor infinite. -/
structure IsPositive (value : Float) (mantissa : Nat) (exponent : Int) : Prop where
  unpacked : ∃ positive, value.toModel.unpack = .finite .positive mantissa exponent positive
  fits : Fits mantissa exponent

theorem exists_isPositive {value : Float} (number : value.isNaN = false) (positive : 0 < level value)
    (finite : level value < topLevel) :
    ∃ mantissa exponent, IsPositive value mantissa exponent ∧
      magnitude mantissa exponent = level value := by
  obtain ⟨unpacked, same⟩ := unpacked_toModel number
  rw [← same] at positive finite ⊢
  generalize shape : value.toModel.unpack = parts at unpacked positive finite ⊢
  cases unpacked with
  | zero sign => exact absurd positive (Int.lt_irrefl 0)
  | infinity sign =>
    cases sign with
    | positive => exact absurd finite (Int.lt_irrefl topLevel)
    | negative => exact absurd positive (by decide)
  | finite sign filled fits =>
    have away := fits.magnitude_pos filled
    cases sign with
    | positive => exact ⟨_, _, ⟨⟨filled, shape⟩, fits⟩, rfl⟩
    | negative =>
      change 0 < -magnitude _ _ at positive
      omega

theorem level_lt_topLevel {value : Float} (finite : value.isFinite = true) :
    level value < topLevel :=
  (level_inside finite).2

/-- Rounded positive numbers are on the positive side. -/
theorem IsRounded.isNearest {value : Float} {number : ℚ} (rounded : IsRounded value number)
    (positive : 0 < number) : IsNearest value number := by
  obtain ⟨isNumber, sign, size, nearest, rfl, rounds, same⟩ := rounded
  cases sign with
  | negative =>
    have nonneg := rounds.number_nonneg
    exact absurd positive (not_lt.mpr (neg_nonpos.mpr nonneg))
  | positive => exact ⟨isNumber, nearest, rounds, same⟩

namespace IsPositive

variable {value : Float} {mantissa : Nat} {exponent : Int}

theorem isFinite (known : IsPositive value mantissa exponent) : value.isFinite = true := by
  obtain ⟨⟨positive, shape⟩, _⟩ := known
  exact congrArg UnpackedFloat.isFinite shape

theorem quantity_eq (known : IsPositive value mantissa exponent) :
    quantity value = mantissa * 2 ^ exponent := by
  obtain ⟨⟨positive, shape⟩, _⟩ := known
  exact congrArg exactValue shape

theorem pos (known : IsPositive value mantissa exponent) : (0 : ℚ) < mantissa * 2 ^ exponent := by
  obtain ⟨⟨positive, _⟩, _⟩ := known
  have filled : (0 : ℚ) < mantissa := by exact_mod_cast positive
  positivity

end IsPositive

namespace IsNearest

variable {value value' : Float} {number number' : ℚ}

/-- A larger number has no smaller double. -/
theorem le_of_le (nearest : IsNearest value number) (nearest' : IsNearest value' number')
    (ordered : number ≤ number') : value ≤ value' := by
  obtain ⟨isNumber, place, rounds, same⟩ := nearest
  obtain ⟨isNumber', place', rounds', same'⟩ := nearest'
  have places := rounds.le_of_le rounds' ordered
  rw [le_iff_level_le isNumber isNumber', same, same']
  omega

theorem zero_le (nearest : IsNearest value number) : 0 ≤ value := by
  obtain ⟨isNumber, place, rounds, same⟩ := nearest
  have zero : level 0 = 0 := by decide
  have place_nonneg := rounds.nonneg
  have top := topLevel_pos
  rw [le_iff_level_le (by decide) isNumber, zero, same]
  omega

end IsNearest

/-! Operations -/

section Operations

variable {first second : Float} {mantissa mantissa' : Nat} {exponent exponent' : Int}

theorem isNearest_mul (left : IsPositive first mantissa exponent)
    (right : IsPositive second mantissa' exponent') :
    IsNearest (first * second) ((mantissa * 2 ^ exponent) * (mantissa' * 2 ^ exponent')) := by
  have rounded := isRounded_mul left.isFinite right.isFinite
  rw [left.quantity_eq, right.quantity_eq] at rounded
  exact rounded.isNearest (mul_pos left.pos right.pos)

theorem isNearest_div (left : IsPositive first mantissa exponent)
    (right : IsPositive second mantissa' exponent') :
    IsNearest (first / second) ((mantissa * 2 ^ exponent) / (mantissa' * 2 ^ exponent')) := by
  have filled := right.pos
  rw [← right.quantity_eq] at filled
  have rounded := isRounded_div left.isFinite right.isFinite filled.ne'
  rw [left.quantity_eq, right.quantity_eq] at rounded
  exact rounded.isNearest (div_pos left.pos right.pos)

end Operations

/-! Natural numbers -/

theorem isNearest_toFloat {number : UInt64} (positive : 0 < number.toNat) :
    IsNearest number.toFloat number.toNat :=
  (isRounded_toFloat number).isNearest (by exact_mod_cast positive)

theorem isPositive_one : IsPositive (.ofBits 0x3FF0000000000000) leastMantissa (-52) :=
  ⟨⟨by decide, rfl⟩, fits_powerOfTwo (by decide) (by decide)⟩

theorem one_eq : (leastMantissa * 2 ^ (-52 : Int) : ℚ) = 1 := by
  norm_num [leastMantissa]

namespace IsNearest

variable {value : Float} {number : ℚ}

theorem level_pos (nearest : IsNearest value number) (least : 1 ≤ number) : 0 < level value := by
  obtain ⟨_, place, rounds, same⟩ := nearest
  have one := isPositive_one.fits.roundsTo
  rw [one_eq] at one
  have places := one.le_of_le rounds least
  have positive : 0 < magnitude leastMantissa (-52) := by decide
  have top := topLevel_pos
  rw [same]
  omega

/-- A factor of one changes no double. -/
theorem times_one (nearest : IsNearest value number) (least : 1 ≤ number)
    (finite : level value < topLevel) : IsNearest (value * .ofBits 0x3FF0000000000000) number := by
  obtain ⟨mantissa, exponent, known, height⟩ :=
    exists_isPositive nearest.isNumber (nearest.level_pos least) finite
  obtain ⟨isNumber, place', rounds', same'⟩ := isNearest_mul known isPositive_one
  obtain ⟨_, place, rounds, same⟩ := nearest
  rw [one_eq, mul_one] at rounds'
  have itself := rounds'.unique known.fits.roundsTo
  exact ⟨isNumber, place, rounds, by omega⟩

end IsNearest

theorem isNearest_ofNat {number : Nat} (positive : 0 < number) :
    IsNearest (.ofNat number) number := by
  by_cases small : number < 2 ^ 53
  · have size : number < UInt64.size := by
      simp only [UInt64.size]
      omega
    have same : (UInt64.ofNat number).toNat = number := Nat.mod_eq_of_lt size
    have product : Float.ofNat number =
        (UInt64.ofNat number).toFloat * .ofBits 0x3FF0000000000000 := by
      change Float.ofScientific number false 0 = _
      rw [Float.ofScientific, dif_pos ⟨small, by decide⟩]
      rfl
    have nearest : IsNearest (UInt64.ofNat number).toFloat number := by
      have known : IsNearest (UInt64.ofNat number).toFloat (UInt64.ofNat number).toNat :=
        isNearest_toFloat (by omega)
      rwa [same] at known
    have finite : level (UInt64.ofNat number).toFloat < topLevel := by
      obtain ⟨_, place, rounds, height⟩ := nearest
      have bound : (number : ℚ) ≤ leastMantissa * 2 ^ (1 : Int) := by
        have below : (number : ℚ) ≤ (2 ^ 53 : Nat) := by exact_mod_cast small.le
        apply below.trans
        norm_num [leastMantissa]
      have places := rounds.le_of_le (fits_powerOfTwo (by decide) (by decide)).roundsTo bound
      have high : magnitude leastMantissa 1 < topLevel := by decide
      omega
    rw [product]
    exact nearest.times_one (by exact_mod_cast positive) finite
  · have product : Float.ofNat number = .ofModel (Float.Model.pack
        (roundWithAccuracy Format.binary64 .positive (number <<< 53 * 1) (-53 + 0) .exact)) := by
      change Float.ofScientific number false 0 = _
      rw [Float.ofScientific, dif_neg (by omega)]
      change Float.ofModel (Float.Model.pack (UnpackedFloat.ofScientific Format.binary64 number 0)) = _
      have low : ¬(0 : Int) < -((2 ^ Format.binary64.exponentBits : Int) + number.log2) := by
        have power : (0 : Int) < 2 ^ Format.binary64.exponentBits := by decide
        omega
      rw [UnpackedFloat.ofScientific, dif_neg positive.ne', if_neg (by decide), if_neg low,
        if_pos (by decide)]
      rfl
    have roundable : Roundable (number <<< 53 * 1) (-53 + 0) := by
      left
      rw [Nat.shiftLeft_eq]
      simp only [leastMantissa]
      omega
    have value : (number : ℚ) = (number <<< 53 * 1 : Nat) * 2 ^ (-53 + 0 : Int) := by
      rw [Nat.shiftLeft_eq]
      norm_num [mul_assoc]
    have rounded := isRounded_roundWithAccuracy .positive roundable (truncates_exact _)
    rw [← product, withSign, ← value] at rounded
    exact rounded.isNearest (by exact_mod_cast positive)

/-- Zero divided by a positive number is zero. -/
theorem zero_div_of_level_pos {value : Float} (number : value.isNaN = false)
    (positive : 0 < level value) : 0 / value = 0 := by
  have quotient : 0 / value = .ofModel (Float.Model.pack
      (UnpackedFloat.div Format.binary64 (.zero .positive) value.toModel.unpack)) := rfl
  have zero : (0 : Float) = .ofModel (Float.Model.pack (.zero .positive)) := rfl
  obtain ⟨unpacked, same⟩ := unpacked_toModel number
  rw [← same] at positive
  rw [quotient, zero]
  generalize value.toModel.unpack = parts at unpacked positive ⊢
  cases unpacked with
  | zero sign => exact absurd positive (Int.lt_irrefl 0)
  | infinity sign =>
    cases sign with
    | positive => rfl
    | negative => exact absurd positive (by decide)
  | finite sign filled fits =>
    have away := fits.magnitude_pos filled
    cases sign with
    | positive => rfl
    | negative =>
      change 0 < -magnitude _ _ at positive
      omega

theorem zero_div_ofNat {total : Nat} (positive : 0 < total) :
    Float.ofNat 0 / Float.ofNat total = 0 := by
  have nearest := isNearest_ofNat positive
  exact zero_div_of_level_pos nearest.isNumber (nearest.level_pos (by exact_mod_cast positive))

/-- A larger part of a total has no smaller share. -/
theorem ofNat_div_ofNat_le {part part' total : Nat} (ordered : part ≤ part') (bounded : part' ≤ total)
    (positive : 0 < total) (finite : (Float.ofNat total).isFinite = true) :
    Float.ofNat part / Float.ofNat total ≤ Float.ofNat part' / Float.ofNat total := by
  have known : ∀ number, 0 < number → number ≤ total → ∃ mantissa exponent,
      IsPositive (.ofNat number) mantissa exponent ∧
        magnitude mantissa exponent = level (.ofNat number) := by
    intro number filled inside
    have nearest := isNearest_ofNat filled
    have whole := isNearest_ofNat positive
    have below := nearest.le_of_le whole (by exact_mod_cast inside)
    rw [le_iff_level_le nearest.isNumber whole.isNumber] at below
    exact exists_isPositive nearest.isNumber (nearest.level_pos (by exact_mod_cast filled))
      (Int.lt_of_le_of_lt below (level_lt_topLevel finite))
  obtain ⟨mantissa, exponent, whole, _⟩ := known total positive (Nat.le_refl _)
  rcases Nat.eq_zero_or_pos part with rfl | some
  · rw [zero_div_ofNat positive]
    rcases Nat.eq_zero_or_pos part' with rfl | some'
    · rw [zero_div_ofNat positive]
      decide
    · obtain ⟨_, _, left, _⟩ := known part' some' bounded
      exact (isNearest_div left whole).zero_le
  · have some' : 0 < part' := Nat.lt_of_lt_of_le some ordered
    obtain ⟨_, _, left, height⟩ := known part some (ordered.trans bounded)
    obtain ⟨_, _, right, height'⟩ := known part' some' bounded
    have doubles := (isNearest_ofNat some).le_of_le (isNearest_ofNat some') (by exact_mod_cast ordered)
    rw [le_iff_level_le (isNearest_ofNat some).isNumber (isNearest_ofNat some').isNumber,
      ← height, ← height'] at doubles
    have values := left.fits.value_le_value right.fits doubles
    apply (isNearest_div left whole).le_of_le (isNearest_div right whole)
    gcongr

end FlowAudit.Decimal
