import FlowAudit.Text.Numeral

set_option autoImplicit false

/-!
The spelling of JSON numbers, and the doubles that they denote. Reading a double keeps a 64-bit
significand and one power of ten: the digits that no longer fit are dropped, and the significand
is multiplied or divided by the power in double arithmetic. The result can therefore differ in its
last bits from the double nearest to the spelled number.
-/
namespace FlowAudit.Json.Number

open FlowAudit.Text

def scanWhole (text : List Char) : Option (List Char × List Char) :=
  match text with
  | '0' :: rest => some (['0'], rest)
  | _ =>
      let digits := text.takeWhile Char.isDigit
      if digits.isEmpty then none else some (digits, text.dropWhile Char.isDigit)

def scanFraction (text : List Char) : Option (List Char × List Char) :=
  match text with
  | '.' :: rest =>
      let digits := rest.takeWhile Char.isDigit
      if digits.isEmpty then none else some ('.' :: digits, rest.dropWhile Char.isDigit)
  | _ => some ([], text)

def takeSign (text : List Char) : List Char × List Char :=
  match text with
  | '+' :: rest => (['+'], rest)
  | '-' :: rest => (['-'], rest)
  | _ => ([], text)

def scanExponent (text : List Char) : Option (List Char × List Char) :=
  match text with
  | mark :: rest =>
      if mark = 'e' ∨ mark = 'E' then
        let (sign, rest) := takeSign rest
        let digits := rest.takeWhile Char.isDigit
        if digits.isEmpty then none
        else some (mark :: sign ++ digits, rest.dropWhile Char.isDigit)
      else some ([], text)
  | [] => some ([], [])

def scanMinus (text : List Char) : List Char × List Char :=
  match text with
  | '-' :: rest => (['-'], rest)
  | _ => ([], text)

/-- The longest number at the start of a text, and what follows it. -/
def scan (text : List Char) : Option (List Char × List Char) := do
  let (minus, text) := scanMinus text
  let (whole, text) ← scanWhole text
  let (fraction, text) ← scanFraction text
  let (exponent, text) ← scanExponent text
  return (minus ++ whole ++ fraction ++ exponent, text)

/-- The number that a canonical decimal numeral denotes: digits only, without leading zeros. -/
def natural? (spelling : List Char) : Option Nat :=
  let value := digitsValue spelling
  if decimal value = spelling then some value else none

theorem natural?_decimal (value : Nat) : natural? (decimal value) = some value := by
  simp only [natural?, digitsValue_decimal, if_true]

/-- Takes digits into the significand while it stays below 2^64; the second part holds the digits
from the first one on that does not fit. -/
def takeDigits (significand : Nat) : List Char → Nat × List Char
  | [] => (significand, [])
  | digit :: rest =>
      let next := 10 * significand + digitValue digit
      if next < UInt64.size then takeDigits next rest else (significand, digit :: rest)

/-- A power of ten up to the largest that is a finite double. -/
def powerOfTen (exponent : Nat) : Float :=
  Float.ofScientific 1 false exponent

/-- Multiplies or divides by a power of ten, at most 308 places at a time; overflow is refused. -/
def scale (value : Float) (exponent : Int) : Option Float :=
  if exponent.natAbs ≤ 308 then
    if 0 ≤ exponent then
      let scaled := value * powerOfTen exponent.natAbs
      if scaled.isFinite then some scaled else none
    else some (value / powerOfTen exponent.natAbs)
  else if value == 0 then some value
  else if 0 ≤ exponent then none
  else scale (value / powerOfTen 308) (exponent + 308)
termination_by exponent.natAbs
decreasing_by omega

/-- The double that a significand, a power of ten and the spelling of an exponent denote. -/
def scaleBy (significand : Nat) (power : Int) (exponent : List Char) : Option Float :=
  let value := significand.toUInt64.toFloat
  let (sign, digits) := takeSign (exponent.drop 1)
  let places : Int := digitsValue digits
  scale value (if sign = ['-'] then power - places else power + places)

/-- The double that the spelling of a number denotes; one that is out of range is refused. -/
def float? (spelling : List Char) : Option Float :=
  let (minus, text) := scanMinus spelling
  let whole := text.takeWhile Char.isDigit
  let text := text.dropWhile Char.isDigit
  let fraction := if text.head? = some '.' then (text.drop 1).takeWhile Char.isDigit else []
  let exponent := text.dropWhile fun char => char != 'e' && char != 'E'
  let (significand, overflow) := takeDigits 0 whole
  let (significand, ignored) := takeDigits significand fraction
  let power : Int := overflow.length - (fraction.length - ignored.length : Nat)
  (scaleBy significand power exponent).map fun value =>
    if minus.isEmpty then value else -value

end FlowAudit.Json.Number
