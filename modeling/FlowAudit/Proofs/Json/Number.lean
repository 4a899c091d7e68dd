import FlowAudit.Json.Number
import FlowAudit.Proofs.Text

set_option autoImplicit false

/-!
Spellings of JSON numbers. They are the texts of the grammar (`isSpelling_iff`), part by part. A number ends
where no character follows that could continue one, so a scan finds a whole number in any such context
(`scan_append`).
-/
namespace FlowAudit.Json.Number

open FlowAudit.Text

/-- A text that is one number and nothing else. -/
def IsSpelling (spelling : List Char) : Prop :=
  scan spelling = some (spelling, [])

instance : DecidablePred IsSpelling := fun spelling =>
  inferInstanceAs (Decidable (scan spelling = some (spelling, [])))

def continues (char : Char) : Bool :=
  char.isDigit || char == '.' || char == 'e' || char == 'E'

/-- A text that cannot continue a number. -/
def Delimited (rest : List Char) : Prop :=
  ∀ char ∈ rest.head?, continues char = false

theorem delimited_nil : Delimited [] := by
  simp [Delimited]

theorem delimited_cons {char : Char} (stops : continues char = false) (rest : List Char) :
    Delimited (char :: rest) := by
  simpa [Delimited] using stops

theorem Delimited.stops {rest : List Char} (ends : Delimited rest) :
    ∀ char ∈ rest.head?, char.isDigit = false ∧ char ≠ '.' ∧ char ≠ 'e' ∧ char ≠ 'E' := by
  intro char first
  simpa [continues, and_assoc] using ends char first

/-- A row of at least one digit at the start of a text, and what follows it. -/
def scanDigits (text : List Char) : Option (List Char × List Char) :=
  if (text.takeWhile Char.isDigit).isEmpty then none
  else some (text.takeWhile Char.isDigit, text.dropWhile Char.isDigit)

/-! The parts of a number -/

theorem scanWhole_other {char : Char} (nonzero : char ≠ '0') (text : List Char) :
    scanWhole (char :: text) = scanDigits (char :: text) := by
  rw [scanWhole, scanDigits]
  intro rest same
  exact nonzero (List.cons.inj same).1

theorem scanWhole_cases {text whole after : List Char}
    (found : scanWhole text = some (whole, after)) :
    (text = '0' :: after ∧ whole = ['0']) ∨
      ∃ char rest, text = char :: rest ∧ char ≠ '0' ∧
        scanDigits (char :: rest) = some (whole, after) := by
  cases text with
  | nil => cases found
  | cons char rest =>
    by_cases zero : char = '0'
    · subst zero
      obtain ⟨rfl, rfl⟩ := Prod.mk.inj (Option.some.inj found)
      exact Or.inl ⟨rfl, rfl⟩
    · rw [scanWhole_other zero] at found
      exact Or.inr ⟨char, rest, rfl, zero, found⟩

theorem scanFraction_point (text : List Char) :
    scanFraction ('.' :: text) =
      (scanDigits text).map fun found => ('.' :: found.1, found.2) := by
  simp only [scanFraction, scanDigits]
  split <;> rfl

theorem scanFraction_other {text : List Char} (other : text.head? ≠ some '.') :
    scanFraction text = some ([], text) := by
  rw [scanFraction]
  intro rest same
  exact other (same ▸ rfl)

theorem scanFraction_cases {text fraction after : List Char}
    (found : scanFraction text = some (fraction, after)) :
    (text.head? ≠ some '.' ∧ after = text ∧ fraction = []) ∨
      ∃ rest digits, text = '.' :: rest ∧ scanDigits rest = some (digits, after) ∧
        fraction = '.' :: digits := by
  by_cases point : text.head? = some '.'
  · obtain ⟨rest, rfl⟩ := List.head?_eq_some_iff.mp point
    rw [scanFraction_point] at found
    obtain ⟨⟨digits, tail⟩, scanned, same⟩ := Option.map_eq_some_iff.mp found
    obtain ⟨rfl, rfl⟩ := Prod.mk.inj same
    exact Or.inr ⟨rest, digits, rfl, scanned, rfl⟩
  · rw [scanFraction_other point] at found
    obtain ⟨rfl, rfl⟩ := Prod.mk.inj (Option.some.inj found)
    exact Or.inl ⟨point, rfl, rfl⟩

theorem scanExponent_mark {mark : Char} (marked : mark = 'e' ∨ mark = 'E') (text : List Char) :
    scanExponent (mark :: text) =
      (scanDigits (takeSign text).2).map fun found =>
        (mark :: (takeSign text).1 ++ found.1, found.2) := by
  simp only [scanExponent, if_pos marked, scanDigits]
  split <;> rfl

theorem scanExponent_other {text : List Char}
    (other : ∀ mark ∈ text.head?, ¬(mark = 'e' ∨ mark = 'E')) :
    scanExponent text = some ([], text) := by
  cases text with
  | nil => rfl
  | cons mark text =>
    have unmarked : ¬(mark = 'e' ∨ mark = 'E') := other mark rfl
    simp only [scanExponent, if_neg unmarked]

theorem scanExponent_cases {text exponent after : List Char}
    (found : scanExponent text = some (exponent, after)) :
    ((∀ mark ∈ text.head?, ¬(mark = 'e' ∨ mark = 'E')) ∧ after = text ∧ exponent = []) ∨
      ∃ mark rest digits, text = mark :: rest ∧ (mark = 'e' ∨ mark = 'E') ∧
        scanDigits (takeSign rest).2 = some (digits, after) ∧
        exponent = mark :: (takeSign rest).1 ++ digits := by
  by_cases marked : ∃ mark ∈ text.head?, mark = 'e' ∨ mark = 'E'
  · obtain ⟨mark, first, marked⟩ := marked
    obtain ⟨rest, rfl⟩ := List.head?_eq_some_iff.mp first
    rw [scanExponent_mark marked] at found
    obtain ⟨⟨digits, tail⟩, scanned, same⟩ := Option.map_eq_some_iff.mp found
    obtain ⟨rfl, rfl⟩ := Prod.mk.inj same
    exact Or.inr ⟨mark, rest, digits, rfl, marked, scanned, rfl⟩
  · have other : ∀ mark ∈ text.head?, ¬(mark = 'e' ∨ mark = 'E') := by
      intro mark first marks
      exact marked ⟨mark, first, marks⟩
    rw [scanExponent_other other] at found
    obtain ⟨rfl, rfl⟩ := Prod.mk.inj (Option.some.inj found)
    exact Or.inl ⟨other, rfl, rfl⟩

theorem scan_eq_some_iff (text spelling after : List Char) :
    scan text = some (spelling, after) ↔
      ∃ whole afterWhole fraction afterFraction exponent,
        scanWhole (scanMinus text).2 = some (whole, afterWhole) ∧
        scanFraction afterWhole = some (fraction, afterFraction) ∧
        scanExponent afterFraction = some (exponent, after) ∧
        spelling = (scanMinus text).1 ++ whole ++ fraction ++ exponent := by
  constructor
  · intro found
    obtain ⟨⟨whole, afterWhole⟩, first, found⟩ := Option.bind_eq_some_iff.mp found
    obtain ⟨⟨fraction, afterFraction⟩, second, found⟩ := Option.bind_eq_some_iff.mp found
    obtain ⟨⟨exponent, tail⟩, third, found⟩ := Option.bind_eq_some_iff.mp found
    obtain ⟨rfl, rfl⟩ := Prod.mk.inj (Option.some.inj found)
    exact ⟨whole, afterWhole, fraction, afterFraction, exponent, first, second, third, rfl⟩
  · rintro ⟨whole, afterWhole, fraction, afterFraction, exponent, first, second, third, rfl⟩
    simp only [scan, first, second, third, Option.bind_eq_bind, Option.bind_some, Option.pure_def]

/-! The grammar -/

/-- A row of digits that starts with zero only when it is zero. -/
inductive IsWhole : List Char → Prop
  | zero : IsWhole ['0']
  | other {first : Char} {rest : List Char} (nonzero : first ≠ '0')
      (row : isDigits (first :: rest) = true) : IsWhole (first :: rest)

inductive IsFraction : List Char → Prop
  | absent : IsFraction []
  | present {digits : List Char} (row : isDigits digits = true) : IsFraction ('.' :: digits)

inductive IsExponent : List Char → Prop
  | absent : IsExponent []
  | present {mark : Char} {sign digits : List Char} (marked : mark = 'e' ∨ mark = 'E')
      (signed : sign = [] ∨ sign = ['+'] ∨ sign = ['-']) (row : isDigits digits = true) :
      IsExponent (mark :: sign ++ digits)

def Ends (rest : List Char) : Prop :=
  ∀ char ∈ rest.head?, char.isDigit = false

theorem scanDigits_eq_some_iff (text digits after : List Char) :
    scanDigits text = some (digits, after) ↔
      text = digits ++ after ∧ isDigits digits = true ∧ Ends after := by
  simp only [scanDigits, isDigits, Bool.and_eq_true, Bool.not_eq_true', List.all_eq_true]
  constructor
  · intro found
    split at found
    · cases found
    · next full =>
      obtain ⟨rfl, rfl⟩ := Prod.mk.inj (Option.some.inj found)
      refine ⟨List.takeWhile_append_dropWhile.symm, ⟨Bool.eq_false_iff.mpr full, ?_⟩, ?_⟩
      · exact List.all_eq_true.mp List.all_takeWhile
      · intro char first
        have fails := List.head?_dropWhile_not Char.isDigit text
        rw [Option.mem_def.mp first] at fails
        exact fails
  · rintro ⟨rfl, ⟨full, each⟩, ends⟩
    have none : after.takeWhile Char.isDigit = [] ∧ after.dropWhile Char.isDigit = after := by
      cases after with
      | nil => exact ⟨rfl, rfl⟩
      | cons char after =>
        have stops : char.isDigit = false := ends char rfl
        simp [stops]
    rw [List.takeWhile_append_of_pos each, List.dropWhile_append_of_pos each, none.1, none.2,
      List.append_nil, if_neg (Bool.eq_false_iff.mp full)]

theorem head_isDigits {digits : List Char} (row : isDigits digits = true) :
    ∃ first rest, digits = first :: rest ∧ first.isDigit = true := by
  cases digits with
  | nil => cases row
  | cons first rest =>
    have parts : first.isDigit = true ∧ rest.all Char.isDigit = true := by
      simpa [isDigits] using row
    exact ⟨first, rest, rfl, parts.1⟩

theorem IsWhole.head {whole : List Char} (known : IsWhole whole) :
    ∃ first rest, whole = first :: rest ∧ first.isDigit = true := by
  cases known with
  | zero => exact ⟨'0', [], rfl, rfl⟩
  | other nonzero row => exact head_isDigits row

theorem isWhole_of_scanWhole {text whole after : List Char}
    (found : scanWhole text = some (whole, after)) : text = whole ++ after ∧ IsWhole whole := by
  rcases scanWhole_cases found with ⟨rfl, rfl⟩ | ⟨char, rest, rfl, nonzero, scanned⟩
  · exact ⟨rfl, IsWhole.zero⟩
  · obtain ⟨same, row, _⟩ := (scanDigits_eq_some_iff _ _ _).mp scanned
    obtain ⟨first, later, rfl, _⟩ := head_isDigits row
    obtain ⟨rfl, _⟩ := List.cons.inj same
    exact ⟨same, IsWhole.other nonzero row⟩

theorem IsWhole.scanWhole_append {whole after : List Char} (known : IsWhole whole)
    (ends : Ends after) : scanWhole (whole ++ after) = some (whole, after) := by
  cases known with
  | zero => rfl
  | other nonzero row =>
    rw [List.cons_append, scanWhole_other nonzero]
    exact (scanDigits_eq_some_iff _ _ _).mpr ⟨rfl, row, ends⟩

theorem isFraction_of_scanFraction {text fraction after : List Char}
    (found : scanFraction text = some (fraction, after)) :
    text = fraction ++ after ∧ IsFraction fraction := by
  rcases scanFraction_cases found with ⟨_, rfl, rfl⟩ | ⟨rest, digits, rfl, scanned, rfl⟩
  · exact ⟨rfl, IsFraction.absent⟩
  · obtain ⟨rfl, row, _⟩ := (scanDigits_eq_some_iff _ _ _).mp scanned
    exact ⟨rfl, IsFraction.present row⟩

theorem IsFraction.scanFraction_append {fraction after : List Char} (known : IsFraction fraction)
    (ends : Ends after) (noPoint : after.head? ≠ some '.') :
    scanFraction (fraction ++ after) = some (fraction, after) := by
  cases known with
  | absent => exact scanFraction_other noPoint
  | @present digits row =>
    have scanned := (scanDigits_eq_some_iff (digits ++ after) _ _).mpr ⟨rfl, row, ends⟩
    rw [List.cons_append, scanFraction_point, scanned, Option.map_some]

theorem takeSign_eq {sign text : List Char} (signed : sign = [] ∨ sign = ['+'] ∨ sign = ['-'])
    (first : ∃ digit rest, text = digit :: rest ∧ digit.isDigit = true) :
    takeSign (sign ++ text) = (sign, text) := by
  rcases signed with rfl | rfl | rfl
  · obtain ⟨digit, rest, rfl, isDigit⟩ := first
    rw [List.nil_append, takeSign]
    · rintro rest' same
      obtain ⟨rfl, _⟩ := List.cons.inj same
      cases isDigit
    · rintro rest' same
      obtain ⟨rfl, _⟩ := List.cons.inj same
      cases isDigit
  · rfl
  · rfl

theorem takeSign_cases (text : List Char) :
    text = (takeSign text).1 ++ (takeSign text).2 ∧
      ((takeSign text).1 = [] ∨ (takeSign text).1 = ['+'] ∨ (takeSign text).1 = ['-']) := by
  unfold takeSign
  split <;> simp

theorem isExponent_of_scanExponent {text exponent after : List Char}
    (found : scanExponent text = some (exponent, after)) :
    text = exponent ++ after ∧ IsExponent exponent := by
  rcases scanExponent_cases found with ⟨_, rfl, rfl⟩ | ⟨mark, rest, digits, rfl, marked, scanned, rfl⟩
  · exact ⟨rfl, IsExponent.absent⟩
  · obtain ⟨same, row, _⟩ := (scanDigits_eq_some_iff _ _ _).mp scanned
    obtain ⟨whole, signed⟩ := takeSign_cases rest
    rw [same, ← List.append_assoc] at whole
    exact ⟨congrArg (mark :: ·) whole, IsExponent.present marked signed row⟩

theorem IsExponent.scanExponent_append {exponent rest : List Char} (known : IsExponent exponent)
    (ends : Delimited rest) : scanExponent (exponent ++ rest) = some (exponent, rest) := by
  cases known with
  | absent =>
    apply scanExponent_other
    intro mark first
    exact not_or.mpr (ends.stops mark first).2.2
  | @present mark sign digits marked signed row =>
    have digitsEnd : Ends rest := fun char first => (ends.stops char first).1
    have scanned := (scanDigits_eq_some_iff (digits ++ rest) _ _).mpr ⟨rfl, row, digitsEnd⟩
    obtain ⟨digit, others, shape, isDigit⟩ := head_isDigits row
    have first : ∃ digit others, digits ++ rest = digit :: others ∧ digit.isDigit = true :=
      ⟨digit, others ++ rest, by rw [shape, List.cons_append], isDigit⟩
    have taken := takeSign_eq signed first
    rw [List.cons_append, List.cons_append, List.append_assoc, scanExponent_mark marked, taken, scanned]
    rfl

theorem scanMinus_cases (text : List Char) :
    text = (scanMinus text).1 ++ (scanMinus text).2 ∧
      ((scanMinus text).1 = [] ∨ (scanMinus text).1 = ['-']) := by
  unfold scanMinus
  split <;> simp

theorem scanMinus_eq {minus text : List Char} (signed : minus = [] ∨ minus = ['-'])
    (first : ∃ digit rest, text = digit :: rest ∧ digit.isDigit = true) :
    scanMinus (minus ++ text) = (minus, text) := by
  rcases signed with rfl | rfl
  · obtain ⟨digit, rest, rfl, isDigit⟩ := first
    rw [List.nil_append, scanMinus]
    rintro rest' same
    obtain ⟨rfl, _⟩ := List.cons.inj same
    cases isDigit
  · rfl

/-- Neither an exponent nor what comes after a number can continue its fraction. -/
theorem IsExponent.ends_append {exponent rest : List Char} (known : IsExponent exponent)
    (ends : Delimited rest) :
    Ends (exponent ++ rest) ∧ (exponent ++ rest).head? ≠ some '.' := by
  cases known with
  | absent =>
    exact ⟨fun char first => (ends.stops char first).1, fun point => (ends.stops '.' point).2.1 rfl⟩
  | present marked signed row =>
    constructor
    · intro char first
      obtain rfl := Option.some.inj first
      rcases marked with rfl | rfl <;> rfl
    · intro point
      have same := Option.some.inj point
      rcases marked with rfl | rfl <;> cases same

theorem IsFraction.ends_append {fraction after : List Char} (known : IsFraction fraction)
    (ends : Ends after) : Ends (fraction ++ after) := by
  cases known with
  | absent => exact ends
  | present row =>
    intro char first
    obtain rfl := Option.some.inj first
    rfl

/-- An optional minus sign, a whole part, and perhaps a fraction and an exponent. -/
def IsNumber (text : List Char) : Prop :=
  ∃ minus whole fraction exponent, text = minus ++ whole ++ fraction ++ exponent ∧
    (minus = [] ∨ minus = ['-']) ∧ IsWhole whole ∧ IsFraction fraction ∧ IsExponent exponent

theorem isNumber_of_scan {text spelling after : List Char}
    (found : scan text = some (spelling, after)) : text = spelling ++ after ∧ IsNumber spelling := by
  obtain ⟨whole, _, fraction, _, exponent, first, second, third, rfl⟩ :=
    (scan_eq_some_iff text spelling after).mp found
  obtain ⟨shape, signed⟩ := scanMinus_cases text
  obtain ⟨rest, isWhole⟩ := isWhole_of_scanWhole first
  obtain ⟨rfl, isFraction⟩ := isFraction_of_scanFraction second
  obtain ⟨rfl, isExponent⟩ := isExponent_of_scanExponent third
  refine ⟨?_, _, whole, fraction, exponent, rfl, signed, isWhole, isFraction, isExponent⟩
  rw [rest] at shape
  simpa only [List.append_assoc] using shape

/-- A number is found whole wherever nothing follows that could continue it. -/
theorem IsNumber.scan_append {text rest : List Char} (known : IsNumber text) (ends : Delimited rest) :
    scan (text ++ rest) = some (text, rest) := by
  obtain ⟨minus, whole, fraction, exponent, rfl, signed, isWhole, isFraction, isExponent⟩ := known
  obtain ⟨tailEnds, noPoint⟩ := isExponent.ends_append ends
  obtain ⟨digit, others, shape, isDigit⟩ := isWhole.head
  have unsigned : scanMinus (minus ++ whole ++ fraction ++ exponent ++ rest) =
      (minus, whole ++ (fraction ++ (exponent ++ rest))) := by
    simp only [List.append_assoc]
    exact scanMinus_eq signed ⟨digit, others ++ (fraction ++ (exponent ++ rest)), by simp [shape], isDigit⟩
  rw [scan_eq_some_iff, unsigned]
  exact ⟨whole, _, fraction, _, exponent, isWhole.scanWhole_append (isFraction.ends_append tailEnds),
    isFraction.scanFraction_append tailEnds noPoint, isExponent.scanExponent_append ends, rfl⟩

/-- The spellings of numbers are those of the grammar. -/
theorem isSpelling_iff (spelling : List Char) : IsSpelling spelling ↔ IsNumber spelling := by
  constructor
  · intro spelled
    exact (isNumber_of_scan spelled).2
  · intro known
    have found := known.scan_append delimited_nil
    rwa [List.append_nil] at found

theorem scan_append {spelling rest : List Char} (ends : Delimited rest)
    (spelled : IsSpelling spelling) : scan (spelling ++ rest) = some (spelling, rest) :=
  ((isSpelling_iff spelling).mp spelled).scan_append ends

/-- A number starts with a digit or a minus sign. -/
theorem scan_head {text spelling after : List Char} (found : scan text = some (spelling, after)) :
    ∃ char rest, text = char :: rest ∧ (char = '-' ∨ char.isDigit) := by
  obtain ⟨rfl, minus, whole, fraction, exponent, rfl, signed, isWhole, _⟩ := isNumber_of_scan found
  rcases signed with rfl | rfl
  · obtain ⟨digit, others, rfl, isDigit⟩ := isWhole.head
    exact ⟨digit, _, rfl, Or.inr isDigit⟩
  · exact ⟨'-', _, rfl, Or.inl rfl⟩

theorem visible_of_isDigits {digits : List Char} (row : isDigits digits = true) :
    ∀ char ∈ digits, 32 ≤ char.toNat := by
  intro char inside
  have parts := Bool.and_eq_true_iff.mp row
  have large := le_toNat_of_isDigit (List.all_eq_true.mp parts.2 char inside)
  omega

theorem IsSpelling.visible {spelling : List Char} (spelled : IsSpelling spelling) :
    ∀ char ∈ spelling, 32 ≤ char.toNat := by
  obtain ⟨minus, whole, fraction, exponent, rfl, signed, isWhole, isFraction, isExponent⟩ :=
    (isSpelling_iff spelling).mp spelled
  simp only [List.forall_mem_append]
  refine ⟨⟨⟨?_, ?_⟩, ?_⟩, ?_⟩
  · rcases signed with rfl | rfl <;> simp
  · cases isWhole with
    | zero => simp
    | other nonzero row => exact visible_of_isDigits row
  · cases isFraction with
    | absent => simp
    | present row => exact List.forall_mem_cons.mpr ⟨by decide, visible_of_isDigits row⟩
  · cases isExponent with
    | absent => simp
    | present marked signed row =>
      simp only [List.cons_append, List.forall_mem_cons, List.forall_mem_append]
      refine ⟨?_, ?_, visible_of_isDigits row⟩
      · rcases marked with rfl | rfl <;> decide
      · rcases signed with rfl | rfl | rfl <;> simp

/-! Numerals -/

theorem isWhole_decimal (value : Nat) : IsWhole (decimal value) := by
  have nonzero : ∀ digit, digit < 10 → digit ≠ 0 → digitChar digit ≠ '0' := by decide
  induction value using decimal.induct with
  | case1 value small =>
    have row := isDigits_decimal value
    rw [decimal, if_pos small] at row ⊢
    by_cases zero : value = 0
    · subst zero
      exact IsWhole.zero
    · exact IsWhole.other (nonzero value small zero) row
  | case2 value large ih =>
    have same := digitsValue_decimal (value / 10)
    have row := isDigits_decimal value
    rw [decimal, if_neg large] at row ⊢
    generalize decimal (value / 10) = front at ih same row
    cases ih with
    | zero =>
      have zero : digitsValue ['0'] = 0 := rfl
      omega
    | other first _ => exact IsWhole.other first row

/-- The numerals of natural numbers are numbers. -/
theorem isSpelling_decimal (value : Nat) : IsSpelling (decimal value) :=
  (isSpelling_iff _).mpr ⟨[], decimal value, [], [], by simp, Or.inl rfl, isWhole_decimal value,
    IsFraction.absent, IsExponent.absent⟩

end FlowAudit.Json.Number
