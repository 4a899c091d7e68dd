import FlowAudit.Proofs.Decimal.Finite
import FlowAudit.Proofs.Text.Reading

set_option autoImplicit false

/-!
The grammar of float literals, said apart from their reader. A text spells a double just when it is a
literal (`float?_eq_none_iff`); how large the number is does not matter for that.
-/
namespace FlowAudit.Decimal

open FlowAudit.Text Literal

def IsSign (text : List Char) : Prop :=
  text = [] ∨ text = ['+'] ∨ text = ['-']

/-- Infinity or NaN, by any of its names, in any case. -/
def IsName (text : List Char) : Prop :=
  text.map Char.toLower ∈ ["inf".toList, "infinity".toList, "nan".toList]

def IsExponent (text : List Char) : Prop :=
  text = [] ∨ ∃ mark sign digits, text = mark :: (sign ++ digits) ∧ (mark = 'e' ∨ mark = 'E') ∧
    IsSign sign ∧ isDigits digits = true

/-- Digits with at most one point among or beside them, at least one of them, and an exponent or none. -/
def IsNumber (text : List Char) : Prop :=
  ∃ whole fraction exponent, isDigits (whole ++ fraction) = true ∧ IsExponent exponent ∧
    (text = whole ++ '.' :: (fraction ++ exponent) ∨ fraction = [] ∧ text = whole ++ exponent)

def IsLiteral (text : List Char) : Prop :=
  ∃ sign body, text = sign ++ body ∧ IsSign sign ∧ (IsName body ∨ IsNumber body)

/-! Signs -/

theorem exists_sign (text : List Char) : ∃ mark, IsSign mark ∧ text = mark ++ (sign text).2 := by
  unfold sign
  split
  · exact ⟨['-'], Or.inr (Or.inr rfl), rfl⟩
  · exact ⟨['+'], Or.inr (Or.inl rfl), rfl⟩
  · exact ⟨[], Or.inl rfl, rfl⟩

theorem sign_append {mark body : List Char} (isSign : IsSign mark)
    (unsigned : ∀ char ∈ body.head?, char ≠ '+' ∧ char ≠ '-') : (sign (mark ++ body)).2 = body := by
  rcases isSign with rfl | rfl | rfl
  · rw [List.nil_append]
    unfold sign
    split
    · exact absurd rfl (unsigned '-' rfl).2
    · exact absurd rfl (unsigned '+' rfl).1
    · rfl
  · rfl
  · rfl

/-! The parts of a number -/

theorem ne_sign_of_isDigit {char : Char} (digit : char.isDigit = true) : char ≠ '+' ∧ char ≠ '-' := by
  constructor <;> (rintro rfl; exact absurd digit (by decide))

/-- A row of digits that goes no further is found as it stands. -/
theorem span_digits {digits rest : List Char} (all : ∀ digit ∈ digits, digit.isDigit = true)
    (ends : ∀ char ∈ rest.head?, char.isDigit = false) :
    (digits ++ rest).takeWhile Char.isDigit = digits ∧
      (digits ++ rest).dropWhile Char.isDigit = rest := by
  rw [List.takeWhile_append_of_pos all, List.dropWhile_append_of_pos all]
  cases rest with
  | nil => exact ⟨List.append_nil digits, rfl⟩
  | cons char rest =>
    have stops : char.isDigit = false := ends char rfl
    simp [stops]

theorem isSome_integer?_iff (text : List Char) :
    (integer? text).isSome = true ↔ ∃ mark digits, text = mark ++ digits ∧ IsSign mark ∧
      isDigits digits = true := by
  have read : (integer? text).isSome = isDigits (sign text).2 := by
    simp only [integer?]
    split <;> simp_all
  rw [read]
  constructor
  · intro digits
    obtain ⟨mark, isSign, whole⟩ := exists_sign text
    exact ⟨mark, (sign text).2, whole, isSign, digits⟩
  · rintro ⟨mark, digits, rfl, isSign, row⟩
    obtain ⟨_, all⟩ := (isDigits_iff digits).mp row
    rwa [sign_append isSign fun char heads => ne_sign_of_isDigit (all char (List.mem_of_mem_head? heads))]

theorem isSome_exponent?_iff (text : List Char) :
    (exponent? text).isSome = true ↔ IsExponent text := by
  cases text with
  | nil => simp [exponent?, IsExponent]
  | cons mark rest =>
    have written : IsExponent (mark :: rest) ↔
        (mark = 'e' ∨ mark = 'E') ∧ (integer? rest).isSome = true := by
      rw [isSome_integer?_iff]
      constructor
      · rintro (none | ⟨_, sign, digits, same, marked, isSign, row⟩)
        · cases none
        · obtain ⟨rfl, rfl⟩ := List.cons.inj same
          exact ⟨marked, sign, digits, rfl, isSign, row⟩
      · rintro ⟨marked, sign, digits, rfl, isSign, row⟩
        exact Or.inr ⟨mark, sign, digits, rfl, marked, isSign, row⟩
    rw [written, exponent?]
    split <;> simp_all

theorem IsExponent.ends {text : List Char} (exponent : IsExponent text) :
    ∀ char ∈ text.head?, char.isDigit = false ∧ char ≠ '.' := by
  rcases exponent with rfl | ⟨mark, sign, digits, rfl, rfl | rfl, _⟩ <;> simp

/-- Every text begins with a row of digits, which may be empty and goes no further. -/
theorem exists_span_digits (text : List Char) :
    ∃ digits rest, text = digits ++ rest ∧ (∀ digit ∈ digits, digit.isDigit = true) ∧
      ∀ char ∈ rest.head?, char.isDigit = false := by
  refine ⟨text.takeWhile Char.isDigit, text.dropWhile Char.isDigit,
    List.takeWhile_append_dropWhile.symm, fun digit inside => List.mem_takeWhile_imp inside, ?_⟩
  intro char heads
  have fails := List.head?_dropWhile_not Char.isDigit text
  rw [Option.mem_def.mp heads] at fails
  exact fails

section Number

variable (negative : Bool) {whole fraction after : List Char}
  (wholeDigits : ∀ digit ∈ whole, digit.isDigit = true)
  (ends : ∀ char ∈ after.head?, char.isDigit = false)

include wholeDigits ends

theorem isSome_number?_point (fractionDigits : ∀ digit ∈ fraction, digit.isDigit = true) :
    (number? negative (whole ++ '.' :: (fraction ++ after))).isSome = true ↔
      whole ++ fraction ≠ [] ∧ (exponent? after).isSome = true := by
  have point : ∀ char ∈ ('.' :: (fraction ++ after)).head?, char.isDigit = false := by
    simp only [List.head?_cons, Option.mem_some_iff, forall_eq']
    decide
  have first := span_digits wholeDigits point
  have second := span_digits fractionDigits ends
  simp only [number?, first, second]
  by_cases none : whole = [] ∧ fraction = []
  · simp [none]
  · have some : ¬(whole.isEmpty && fraction.isEmpty) = true := by simpa using none
    rw [if_neg some, Option.isSome_map, ne_eq, List.append_eq_nil_iff]
    exact (and_iff_right none).symm

theorem isSome_number?_whole (noPoint : after.head? ≠ some '.') :
    (number? negative (whole ++ after)).isSome = true ↔
      whole ≠ [] ∧ (exponent? after).isSome = true := by
  have first := span_digits wholeDigits ends
  simp only [number?, first]
  split
  · exact absurd rfl noPoint
  · by_cases none : whole = []
    · simp [none]
    · have some : ¬(whole.isEmpty && ([] : List Char).isEmpty) = true := by simpa using none
      rw [if_neg some, Option.isSome_map]
      exact (and_iff_right none).symm

end Number

theorem isSome_number?_iff (negative : Bool) (text : List Char) :
    (number? negative text).isSome = true ↔ IsNumber text := by
  constructor
  · intro read
    obtain ⟨whole, rest, rfl, wholeDigits, ends⟩ := exists_span_digits text
    by_cases point : rest.head? = some '.'
    · obtain ⟨later, rfl⟩ := List.head?_eq_some_iff.mp point
      obtain ⟨fraction, after, rfl, fractionDigits, ends⟩ := exists_span_digits later
      obtain ⟨filled, exponent⟩ := (isSome_number?_point negative wholeDigits ends fractionDigits).mp read
      have row : isDigits (whole ++ fraction) = true :=
        (isDigits_iff _).mpr ⟨filled, List.forall_mem_append.mpr ⟨wholeDigits, fractionDigits⟩⟩
      exact ⟨whole, fraction, after, row, (isSome_exponent?_iff after).mp exponent, Or.inl rfl⟩
    · obtain ⟨filled, exponent⟩ := (isSome_number?_whole negative wholeDigits ends point).mp read
      have row : isDigits (whole ++ []) = true := by
        rw [List.append_nil]
        exact (isDigits_iff _).mpr ⟨filled, wholeDigits⟩
      exact ⟨whole, [], rest, row, (isSome_exponent?_iff rest).mp exponent, Or.inr ⟨rfl, rfl⟩⟩
  · rintro ⟨whole, fraction, exponent, row, spelled, written⟩
    obtain ⟨filled, all⟩ := (isDigits_iff _).mp row
    obtain ⟨wholeDigits, fractionDigits⟩ := List.forall_mem_append.mp all
    have ends : ∀ char ∈ exponent.head?, char.isDigit = false := fun char heads =>
      (spelled.ends char heads).1
    have read := (isSome_exponent?_iff exponent).mpr spelled
    rcases written with rfl | ⟨rfl, rfl⟩
    · exact (isSome_number?_point negative wholeDigits ends fractionDigits).mpr ⟨filled, read⟩
    · have noPoint : exponent.head? ≠ some '.' := fun heads => (spelled.ends '.' heads).2 rfl
      rw [List.append_nil] at filled
      exact (isSome_number?_whole negative wholeDigits ends noPoint).mpr ⟨filled, read⟩

/-! Literals -/

theorem isSome_read?_iff (text : List Char) :
    (read? text).isSome = true ↔ IsName (sign text).2 ∨ IsNumber (sign text).2 := by
  simp only [read?, ← isSome_number?_iff (sign text).1, IsName]
  split
  · rename_i infinite
    rcases infinite with same | same <;> simp [same]
  · split
    · rename_i name
      simp [name]
    · rename_i finite number
      rw [not_or] at finite
      simp [finite, number]

/-- No literal has two signs. -/
theorem head?_of_isName_or_isNumber {body : List Char} (known : IsName body ∨ IsNumber body) :
    ∀ char ∈ body.head?, char ≠ '+' ∧ char ≠ '-' := by
  intro char heads
  obtain ⟨rest, rfl⟩ := List.head?_eq_some_iff.mp heads
  rcases known with name | ⟨whole, fraction, exponent, row, _, written⟩
  · constructor <;> (rintro rfl; simp [IsName] at name)
  · obtain ⟨filled, all⟩ := (isDigits_iff _).mp row
    cases whole with
    | nil =>
      rcases written with same | ⟨rfl, _⟩
      · obtain ⟨rfl, _⟩ := List.cons.inj same
        exact ⟨by decide, by decide⟩
      · exact absurd rfl filled
    | cons first whole =>
      have same : char = first := by
        rcases written with same | ⟨_, same⟩ <;> exact (List.cons.inj same).1
      exact ne_sign_of_isDigit (same ▸ all _ List.mem_cons_self)

theorem isLiteral_iff (text : List Char) : IsLiteral text ↔ (float? text).isSome = true := by
  rw [float?, Option.isSome_map, isSome_read?_iff]
  constructor
  · rintro ⟨mark, body, rfl, isSign, known⟩
    rwa [sign_append isSign (head?_of_isName_or_isNumber known)]
  · intro known
    obtain ⟨mark, isSign, whole⟩ := exists_sign text
    exact ⟨mark, (sign text).2, whole, isSign, known⟩

theorem float?_eq_none_iff (text : List Char) : float? text = none ↔ ¬IsLiteral text := by
  rw [isLiteral_iff, Option.not_isSome_iff_eq_none]

theorem SpellsFinite.isLiteral {text : String} (spells : SpellsFinite text) :
    IsLiteral text.toList := by
  obtain ⟨value, reads, _⟩ := spells
  exact (isLiteral_iff _).mpr (Option.isSome_of_eq_some reads)

end FlowAudit.Decimal
