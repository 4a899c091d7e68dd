set_option autoImplicit false

/-!
Decimal numerals for natural numbers. A numeral is one or more ASCII digits, after an optional
plus sign; leading zeros are allowed and the number of digits is not limited. `decimal` writes the
canonical numeral, and `natural?_decimal` reads it back.
-/
namespace FlowAudit.Text

def digitValue (char : Char) : Nat :=
  char.toNat - '0'.toNat

def digitChar (digit : Nat) : Char :=
  Char.ofNat ('0'.toNat + digit)

/-- The value of a row of decimal digits, most significant digit first. -/
def digitsValue (digits : List Char) : Nat :=
  digits.foldl (fun value digit => 10 * value + digitValue digit) 0

/-- A row of at least one digit. -/
def isDigits (text : List Char) : Bool :=
  !text.isEmpty && text.all Char.isDigit

/-- The text after one leading plus sign, if there is one. -/
def dropPlus : List Char → List Char
  | '+' :: rest => rest
  | text => text

/-- The number that a numeral denotes. -/
def natural? (text : List Char) : Option Nat :=
  let digits := dropPlus text
  if isDigits digits then some (digitsValue digits) else none

def uint16? (text : List Char) : Option UInt16 :=
  (natural? text).bind fun value =>
    if bound : value < UInt16.size then some (UInt16.ofNatLT value bound) else none

def uint32? (text : List Char) : Option UInt32 :=
  (natural? text).bind fun value =>
    if bound : value < UInt32.size then some (UInt32.ofNatLT value bound) else none

/-- The numeral without a sign and without leading zeros. -/
def decimal (value : Nat) : List Char :=
  if value < 10 then [digitChar value] else decimal (value / 10) ++ [digitChar (value % 10)]
termination_by value
decreasing_by omega

theorem digitsValue_append_single (digits : List Char) (digit : Char) :
    digitsValue (digits ++ [digit]) = 10 * digitsValue digits + digitValue digit := by
  simp only [digitsValue, List.foldl_append, List.foldl_cons, List.foldl_nil]

theorem digitValue_digitChar : ∀ digit, digit < 10 → digitValue (digitChar digit) = digit := by
  decide

theorem isDigit_digitChar : ∀ digit, digit < 10 → (digitChar digit).isDigit = true := by
  decide

theorem digitsValue_decimal (value : Nat) : digitsValue (decimal value) = value := by
  induction value using decimal.induct with
  | case1 value small =>
    rw [decimal, if_pos small]
    simpa only [digitsValue, List.foldl_cons, List.foldl_nil, Nat.mul_zero, Nat.zero_add] using
      digitValue_digitChar value small
  | case2 value large ih =>
    rw [decimal, if_neg large, digitsValue_append_single, ih,
      digitValue_digitChar (value % 10) (by omega)]
    omega

theorem isDigit_of_mem_decimal (value : Nat) : ∀ char ∈ decimal value, char.isDigit = true := by
  induction value using decimal.induct with
  | case1 value small =>
    rw [decimal, if_pos small]
    simpa using isDigit_digitChar value small
  | case2 value large ih =>
    rw [decimal, if_neg large]
    simp only [List.mem_append, List.mem_singleton]
    rintro char (inside | rfl)
    · exact ih char inside
    · exact isDigit_digitChar (value % 10) (by omega)

theorem decimal_ne_nil (value : Nat) : decimal value ≠ [] := by
  rw [decimal]
  split <;> simp

theorem dropPlus_decimal (value : Nat) : dropPlus (decimal value) = decimal value := by
  unfold dropPlus
  split
  · rename_i rest shape
    have digit := isDigit_of_mem_decimal value '+' (by simp [shape])
    exact absurd digit (by decide)
  · rfl

theorem isDigits_decimal (value : Nat) : isDigits (decimal value) = true := by
  simp only [isDigits, Bool.and_eq_true, List.all_eq_true]
  exact ⟨by simp [decimal_ne_nil], isDigit_of_mem_decimal value⟩

theorem natural?_decimal (value : Nat) : natural? (decimal value) = some value := by
  simp only [natural?, dropPlus_decimal, isDigits_decimal, if_true, digitsValue_decimal]

end FlowAudit.Text
