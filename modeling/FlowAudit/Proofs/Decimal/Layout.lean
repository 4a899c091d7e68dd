import FlowAudit.Decimal.Layout
import FlowAudit.Proofs.Json.Number
import FlowAudit.Proofs.Text.Reading

set_option autoImplicit false

/-!
The texts of finite doubles in JSON. Whatever digits a double has, its text is a JSON number
(`isSpelling_finite`): the digits do not begin with a zero unless they are a lone zero, and there are digits
on both sides of a point.
-/
namespace FlowAudit.Decimal

open FlowAudit.Text FlowAudit.Json.Number

/-! Digits -/

theorem Digits.trimmed_ne_zero {digits : Digits} (positive : digits.coefficient ≠ 0) (fuel : Nat) :
    (digits.trimmed fuel).coefficient ≠ 0 := by
  induction fuel generalizing digits with
  | zero => exact positive
  | succ fuel ih =>
    rw [trimmed]
    split
    · rename_i zero
      apply ih
      simp only
      omega
    · exact positive

theorem twoTo_pos (power : Nat) : 0 < twoTo power :=
  Nat.pow_pos (by decide)

theorem tenTo_pos (power : Nat) : 0 < tenTo power :=
  Nat.pow_pos (by decide)

/-- The interval that rounds to a positive double does not reach down to zero. -/
theorem lowerEnd_pos {value : Binary} (positive : value.mantissa ≠ 0) :
    0 < 4 * value.ratio.1 - value.lowerGap * twoTo value.power.toNat := by
  have unit := twoTo_pos value.power.toNat
  have gap : value.lowerGap ≤ 2 := by
    rw [Binary.lowerGap]
    split <;> omega
  have below : value.lowerGap * twoTo value.power.toNat < 4 * value.mantissa * twoTo value.power.toNat :=
    Nat.mul_lt_mul_of_pos_right (by omega) unit
  rw [Binary.ratio, ← Nat.mul_assoc]
  omega

theorem coefficient_ne_zero_of_gridPoint? {tie : Tie} {value : Binary} {power : Int} {digits : Digits}
    (positive : value.mantissa ≠ 0) (found : gridPoint? tie value power = some digits) :
    digits.coefficient ≠ 0 := by
  have low := Nat.mul_pos (lowerEnd_pos positive) (tenTo_pos (-power).toNat)
  simp only [gridPoint?] at found
  split at found
  · rename_i hit
    obtain rfl := Option.some.inj found
    intro zero
    simp only at zero
    rw [zero] at hit
    omega
  · split at found
    · obtain rfl := Option.some.inj found
      exact Nat.succ_ne_zero _
    · cases found

/-- Only digits without a power of ten can be a lone zero. -/
theorem shortest_sound (tie : Tie) {value : Binary} (positive : value.mantissa ≠ 0) {digits : Digits}
    (same : shortest tie value = digits) : digits.coefficient ≠ 0 ∨ digits.power = 0 := by
  unfold shortest at same
  rcases Option.getD_eq_iff.mp same with found | ⟨_, rfl⟩
  · obtain ⟨grid, first, rfl⟩ := Option.map_eq_some_iff.mp found
    obtain ⟨power, _, hit⟩ := List.exists_of_findSome?_eq_some first
    exact Or.inl (Digits.trimmed_ne_zero (coefficient_ne_zero_of_gridPoint? positive hit) 17)
  · exact Or.inr rfl

/-! Rows of digits -/

theorem isDigits_append {first second : List Char} (row : isDigits first = true)
    (all : ∀ digit ∈ second, digit.isDigit = true) : isDigits (first ++ second) = true := by
  rw [isDigits_iff] at row ⊢
  exact ⟨by simp [row.1], List.forall_mem_append.mpr ⟨row.2, all⟩⟩

theorem isDigit_of_mem_zeros {count : Nat} {digit : Char} (inside : digit ∈ List.replicate count '0') :
    digit.isDigit = true := by
  rw [List.eq_of_mem_replicate inside]
  decide

theorem isFraction_point {digits : List Char} (some : digits ≠ [])
    (all : ∀ digit ∈ digits, digit.isDigit = true) : IsFraction ('.' :: digits) :=
  .present ((isDigits_iff digits).mpr ⟨some, all⟩)

theorem isFraction_zero : IsFraction ['.', '0'] :=
  .present (by decide)

theorem exists_cons_decimal {value : Nat} (positive : value ≠ 0) :
    ∃ first rest, decimal value = first :: rest ∧ first ≠ '0' := by
  have same := digitsValue_decimal value
  have whole := isWhole_decimal value
  generalize decimal value = digits at same whole
  cases whole with
  | zero => exact absurd same.symm positive
  | other nonzero _ => exact ⟨_, _, rfl, nonzero⟩

theorem isWhole_decimal_zeros {value : Nat} (positive : value ≠ 0) (count : Nat) :
    IsWhole (decimal value ++ List.replicate count '0') := by
  have row : isDigits (decimal value ++ List.replicate count '0') = true :=
    isDigits_append (isDigits_decimal value) fun _ inside => isDigit_of_mem_zeros inside
  obtain ⟨first, rest, split, nonzero⟩ := exists_cons_decimal positive
  rw [split, List.cons_append] at row ⊢
  exact .other nonzero row

theorem isWhole_take_decimal {value : Nat} (positive : value ≠ 0) (count : Nat) :
    IsWhole ((decimal value).take (count + 1)) := by
  have all := isDigit_of_mem_decimal value
  obtain ⟨first, rest, split, nonzero⟩ := exists_cons_decimal positive
  rw [split] at all ⊢
  rw [List.take_succ_cons]
  refine .other nonzero ((isDigits_iff _).mpr ⟨by simp, ?_⟩)
  intro digit inside
  rw [← List.take_succ_cons] at inside
  exact all digit (List.mem_of_mem_take inside)

/-! The two forms -/

theorem exists_parts_positional (power : Int) {coefficient : Nat}
    (sound : coefficient ≠ 0 ∨ power = 0) :
    ∃ whole fraction, positionalText ['.', '0'] (decimal coefficient) power = whole ++ fraction ∧
      IsWhole whole ∧ IsFraction fraction := by
  have all := isDigit_of_mem_decimal coefficient
  have some := decimal_ne_nil coefficient
  have filled := List.length_pos_iff.mpr some
  simp only [positionalText]
  split
  · refine ⟨['0'], '.' :: (List.replicate _ '0' ++ decimal coefficient), rfl, .zero,
      isFraction_point (by simp [some]) ?_⟩
    exact List.forall_mem_append.mpr ⟨fun _ inside => isDigit_of_mem_zeros inside, all⟩
  · split
    · refine ⟨decimal coefficient ++ List.replicate power.toNat '0', ['.', '0'], rfl, ?_,
        isFraction_zero⟩
      rcases sound with positive | rfl
      · exact isWhole_decimal_zeros positive _
      · rw [Int.toNat_zero, List.replicate_zero, List.append_nil]
        exact isWhole_decimal coefficient
    · -- The point stands among the digits, at least one of which comes after it.
      rename_i notBefore notAfter
      have positive : coefficient ≠ 0 := by omega
      refine ⟨_, _, rfl, isWhole_take_decimal positive _, isFraction_point ?_ ?_⟩
      · rw [ne_eq, List.drop_eq_nil_iff]
        omega
      · exact fun digit inside => all digit (List.mem_of_mem_drop inside)

theorem exists_parts_pointAfterFirst (value : Nat) :
    ∃ whole fraction, pointAfterFirst (decimal value) = whole ++ fraction ∧ IsWhole whole ∧
      IsFraction fraction := by
  have all := isDigit_of_mem_decimal value
  have whole := isWhole_decimal value
  have lone : ∀ digit : Char, digit.isDigit = true → IsWhole [digit] := by
    intro digit isDigit
    by_cases zero : digit = '0'
    · exact zero ▸ .zero
    · exact .other zero ((isDigits_iff _).mpr ⟨by simp, by simpa using isDigit⟩)
  generalize decimal value = digits at all whole
  unfold pointAfterFirst
  split
  · rename_i first second rest
    obtain ⟨digit, others⟩ := List.forall_mem_cons.mp all
    exact ⟨[first], '.' :: second :: rest, rfl, lone first digit, isFraction_point (by simp) others⟩
  · exact ⟨digits, [], by simp, whole, .absent⟩

theorem isExponent_power (power : Int) :
    IsExponent ('e' :: (plusText power ++ powerText power)) := by
  have signed : ∀ sign, sign = ['+'] ∨ sign = ['-'] →
      IsExponent ('e' :: sign ++ decimal power.natAbs) := fun sign known =>
    .present (Or.inl rfl) (Or.inr known) (isDigits_decimal _)
  rw [plusText, powerText]
  split
  · exact signed ['-'] (Or.inr rfl)
  · exact signed ['+'] (Or.inl rfl)

theorem exists_parts_scientific (coefficient : Nat) (leading : Int) :
    ∃ whole fraction exponent,
      pointAfterFirst (decimal coefficient) ++ 'e' :: plusText leading ++ powerText leading =
        whole ++ fraction ++ exponent ∧
      IsWhole whole ∧ IsFraction fraction ∧ IsExponent exponent := by
  obtain ⟨whole, fraction, text, isWhole, isFraction⟩ := exists_parts_pointAfterFirst coefficient
  refine ⟨whole, fraction, _, ?_, isWhole, isFraction, isExponent_power leading⟩
  rw [text, List.append_assoc, List.cons_append]

theorem signText_eq (value : Float) : signText value = [] ∨ signText value = ['-'] := by
  rw [signText]
  split <;> simp

/-- Every finite double is written as a JSON number. -/
theorem isSpelling_finite (value : Float) : IsSpelling (Layout.json.finite value) := by
  have wholeEnd : Layout.json.wholeEnd = ['.', '0'] := rfl
  have text : ∃ whole fraction exponent,
      Layout.json.finite value = signText value ++ (whole ++ fraction ++ exponent) ∧
        IsWhole whole ∧ IsFraction fraction ∧ IsExponent exponent := by
    simp only [Layout.finite, wholeEnd]
    split
    · exact ⟨['0'], ['.', '0'], [], rfl, .zero, isFraction_zero, .absent⟩
    · rename_i positive
      generalize same : shortest Layout.json.tie (Binary.ofFloat value) = digits
      split
      · obtain ⟨whole, fraction, text, isWhole, isFraction⟩ :=
          exists_parts_positional digits.power (shortest_sound _ positive same)
        exact ⟨whole, fraction, [], by rw [text, List.append_nil], isWhole, isFraction, .absent⟩
      · obtain ⟨whole, fraction, exponent, text, parts⟩ :=
          exists_parts_scientific digits.coefficient _
        exact ⟨whole, fraction, exponent, congrArg (signText value ++ ·) text, parts⟩
  obtain ⟨whole, fraction, exponent, text, isWhole, isFraction, isExponent⟩ := text
  refine (isSpelling_iff _).mpr
    ⟨signText value, whole, fraction, exponent, ?_, signText_eq value, isWhole, isFraction, isExponent⟩
  rw [text, ← List.append_assoc, ← List.append_assoc]

end FlowAudit.Decimal
