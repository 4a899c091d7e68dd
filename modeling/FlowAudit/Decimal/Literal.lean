import FlowAudit.Text.Numeral

set_option autoImplicit false

/-!
Literals of doubles. A literal is an optional sign, and then `inf`, `infinity` or `nan` in any
case, or digits with at most one point among or beside them and at least one digit, with an
optional exponent. It denotes the nearest double: too large a number is infinite, too small a
number is zero.
-/
namespace FlowAudit.Decimal

open FlowAudit.Text

def infinity : Float := Float.ofBits 0x7FF0000000000000

def notANumber : Float := Float.ofBits 0x7FF8000000000000

def signed (negative : Bool) (magnitude : Float) : Float :=
  if negative then -magnitude else magnitude

/-- The double nearest to the number with these digits, times a power of ten. Past 400 places to
either side of the point every number is out of range. -/
def nearest (digits : List Char) (power : Int) : Float :=
  let digits := digits.dropWhile (· == '0')
  let places : Int := digits.length + power
  if digits.isEmpty then 0
  else if 400 < places then infinity
  else if places < -400 then 0
  else Float.ofScientific (digitsValue digits) (power < 0) power.natAbs

inductive Literal where
  | number (negative : Bool) (digits : List Char) (power : Int)
  | infinite (negative : Bool)
  | nan
  deriving Repr, DecidableEq

namespace Literal

def toFloat : Literal → Float
  | number negative digits power => signed negative (nearest digits power)
  | infinite negative => signed negative infinity
  | nan => notANumber

/-- The sign before a number, and what follows it. -/
def sign (text : List Char) : Bool × List Char :=
  match text with
  | '-' :: rest => (true, rest)
  | '+' :: rest => (false, rest)
  | _ => (false, text)

/-- A whole number with an optional sign. -/
def integer? (text : List Char) : Option Int :=
  let (negative, digits) := sign text
  if isDigits digits then
    some (if negative then -(digitsValue digits : Int) else digitsValue digits)
  else none

/-- The exponent that the text after the digits spells. -/
def exponent? : List Char → Option Int
  | [] => some 0
  | mark :: rest => if mark = 'e' ∨ mark = 'E' then integer? rest else none

def number? (negative : Bool) (text : List Char) : Option Literal :=
  let whole := text.takeWhile Char.isDigit
  let text := text.dropWhile Char.isDigit
  let (fraction, text) :=
    match text with
    | '.' :: rest => (rest.takeWhile Char.isDigit, rest.dropWhile Char.isDigit)
    | _ => ([], text)
  if whole.isEmpty && fraction.isEmpty then none
  else (exponent? text).map fun exponent =>
    number negative (whole ++ fraction) (exponent - fraction.length)

def read? (text : List Char) : Option Literal :=
  let (negative, body) := sign text
  let name := body.map Char.toLower
  if name = ['i', 'n', 'f'] ∨ name = ['i', 'n', 'f', 'i', 'n', 'i', 't', 'y'] then
    some (infinite negative)
  else if name = ['n', 'a', 'n'] then some nan
  else number? negative body

end Literal

/-- The double that a text spells. -/
def float? (text : List Char) : Option Float :=
  (Literal.read? text).map Literal.toFloat

end FlowAudit.Decimal
