import FlowAudit.Decimal.Literal
import FlowAudit.Toml.Item

set_option autoImplicit false

/-!
Scalars without quotes: booleans, integers, floats, dates and times. What follows the leading
digits of a number decides its kind: a dash or a colon makes it a date or a time, a point or an
exponent a float, and nothing or an underscore an integer. Only dates and times may hold spaces,
and an underscore stands between two digits. A number with a right outline has no value if it is
too large, an integer also if it holds anything but digits and underscores.
-/
namespace FlowAudit.Toml.Scalar

open FlowAudit.Text FlowAudit.Decimal

/-- Whether each underscore stands between two digits; `afterDigit` says whether a digit stands
before the text. -/
def isGrouped (isDigit : Char → Bool) (afterDigit : Bool) : List Char → Bool
  | [] => true
  | char :: rest =>
      if char = '_' then afterDigit && rest.head?.any isDigit && isGrouped isDigit false rest
      else isGrouped isDigit (isDigit char) rest

def withoutUnderscores (text : List Char) : List Char :=
  text.filter (· != '_')

def radixDigit? (radix : Nat) (char : Char) : Option Nat :=
  let value :=
    if char.isDigit then char.toNat - '0'.toNat
    else if 'a' ≤ char ∧ char ≤ 'f' then char.toNat - 'a'.toNat + 10
    else if 'A' ≤ char ∧ char ≤ 'F' then char.toNat - 'A'.toNat + 10
    else radix
  if value < radix then some value else none

def isRadixDigit (radix : Nat) (char : Char) : Bool :=
  (radixDigit? radix char).isSome

/-- Whether an integer fits into 128 bits, with or without a sign. -/
def fits128 (value : Int) : Bool :=
  -0x80000000000000000000000000000000 ≤ value && value ≤ 0xFFFFFFFFFFFFFFFFFFFFFFFFFFFFFFFF

def integerItem (value? : Option Int) : Item :=
  match value?.filter fits128 with
  | some value => .integer value
  | none => .valueless

def floatItem (value : Float) : Item :=
  if value.isFinite then .float value else .valueless

/-- The number that digits of a radix spell; no digits spell none. -/
def radixValue? (radix : Nat) (digits : List Char) : Option Int :=
  if digits.isEmpty then none
  else (digits.mapM (radixDigit? radix)).map fun values =>
    (values.foldl (fun value digit => radix * value + digit) 0 : Nat)

/-- An integer of a radix, after the mark of the radix. -/
def radixInteger? (radix : Nat) (text : List Char) : Option Item :=
  if text.all (fun char => char == '_' || isRadixDigit radix char) &&
      isGrouped (isRadixDigit radix) false text then
    some (integerItem (radixValue? radix (withoutUnderscores text)))
  else none

/-- A decimal integer, after its sign. It has no leading zeros. -/
def integer? (negative : Bool) (body : List Char) : Option Item :=
  if (body = ['0'] || body.head? != some '0') &&
      isGrouped (isRadixDigit 16) false body then
    some (integerItem
      (Literal.integer? ((if negative then ['-'] else []) ++ withoutUnderscores body)))
  else none

/-- The digits at the start of a text, with underscores among them, and what follows them. -/
def digitRun? (text : List Char) : Option (List Char × List Char) :=
  let isRun (char : Char) : Bool := char.isDigit || char == '_'
  let digits := withoutUnderscores (text.takeWhile isRun)
  if digits.isEmpty then none else some (digits, text.dropWhile isRun)

/-- The digits after the point, if there is one, and what follows them. -/
def fraction? : List Char → Option (List Char × List Char)
  | '.' :: rest => digitRun? rest
  | text => some ([], text)

/-- The power of ten that the text after the fraction spells. -/
def exponent? : List Char → Option Int
  | [] => some 0
  | mark :: rest =>
      if mark = 'e' ∨ mark = 'E' then
        let (negative, body) := Literal.sign rest
        match digitRun? body with
        | some (digits, []) => Literal.integer? ((if negative then ['-'] else []) ++ digits)
        | _ => none
      else none

/-- A float, after its sign. The digits before the point have no leading zeros. -/
def float? (negative : Bool) (body : List Char) : Option Item := do
  let (whole, rest) ← digitRun? body
  let (fraction, rest) ← fraction? rest
  let exponent ← exponent? rest
  if 1 < whole.length ∧ body.head? = some '0' then none
  else if isGrouped Char.isDigit false body then
    let power := exponent - fraction.length
    return floatItem (Literal.number negative (whole ++ fraction) power).toFloat
  else none

/-- A number of exactly so many digits at the start of a text, and what follows it. -/
def fixedDigits? (count : Nat) (text : List Char) : Option (Nat × List Char) :=
  let digits := text.take count
  if digits.length = count ∧ digits.all Char.isDigit then
    some (digitsValue digits, text.drop count)
  else none

/-- The text after a mark. -/
def after? (mark : Char) : List Char → Option (List Char)
  | char :: rest => if char = mark then some rest else none
  | [] => none

def daysInMonth (year month : Nat) : Nat :=
  if month = 2 then
    if year % 4 = 0 ∧ (year % 100 ≠ 0 ∨ year % 400 = 0) then 29 else 28
  else if month = 4 ∨ month = 6 ∨ month = 9 ∨ month = 11 then 30
  else 31

/-- What follows a date. -/
def afterDate? (text : List Char) : Option (List Char) := do
  let (year, text) ← fixedDigits? 4 text
  let (month, text) ← fixedDigits? 2 (← after? '-' text)
  let (day, text) ← fixedDigits? 2 (← after? '-' text)
  if 1 ≤ month ∧ month ≤ 12 ∧ 1 ≤ day ∧ day ≤ daysInMonth year month then return text else none

/-- What follows hours and minutes. -/
def afterMinutes? (text : List Char) : Option (List Char) := do
  let (hour, text) ← fixedDigits? 2 text
  let (minute, text) ← fixedDigits? 2 (← after? ':' text)
  if hour < 24 ∧ minute < 60 then return text else none

/-- What follows a time. The seconds may be missing; a second 60 is a leap second. -/
def afterTime? (text : List Char) : Option (List Char) := do
  match ← afterMinutes? text with
  | ':' :: rest => do
      let (second, rest) ← fixedDigits? 2 rest
      if 60 < second then none
      else
        match rest with
        | '.' :: fraction =>
            if (fraction.takeWhile Char.isDigit).isEmpty then none
            else return fraction.dropWhile Char.isDigit
        | _ => return rest
  | rest => return rest

def isOffset (text : List Char) : Bool :=
  match text with
  | [] => true
  | ['Z'] => true
  | ['z'] => true
  | '+' :: rest => afterMinutes? rest = some []
  | '-' :: rest => afterMinutes? rest = some []
  | _ => false

/-- Whether a text is a date, a time, or a date and a time with or without an offset. -/
def isMoment (text : List Char) : Bool :=
  match afterDate? text with
  | some [] => true
  | some (mark :: rest) =>
      (mark == 'T' || mark == 't' || mark == ' ') && (afterTime? rest).any isOffset
  | none => afterTime? text = some []

/-- Whether a text after the digits of a number makes it a float. -/
def marksFloat (text : List Char) : Bool :=
  text.any fun char => char == '.' || char == 'e' || char == 'E'

/-- The item that a number, a date or a time spells. -/
def number? (text : List Char) : Option Item :=
  let (negative, body) := Literal.sign text
  let afterDigits := body.dropWhile Char.isDigit
  if body.head?.all (· == '.') then none
  else if body = ['i', 'n', 'f'] then some (.float (signed negative infinity))
  else if body = ['n', 'a', 'n'] then some (.float notANumber)
  else if afterDigits.head? = some '-' ∨ afterDigits.head? = some ':' then
    if isMoment text then some (.moment (String.ofList text)) else none
  else if afterDigits.contains ' ' then none
  else if marksFloat afterDigits then float? negative body
  else if afterDigits.head?.all (· == '_') then integer? negative body
  else none

/-- The item that a text without quotes spells. -/
def read? (text : List Char) : Option Item :=
  match text with
  | ['t', 'r', 'u', 'e'] => some (.boolean true)
  | ['f', 'a', 'l', 's', 'e'] => some (.boolean false)
  | '0' :: 'x' :: digits => radixInteger? 16 digits
  | '0' :: 'o' :: digits => radixInteger? 8 digits
  | '0' :: 'b' :: digits => radixInteger? 2 digits
  | _ => number? text

end FlowAudit.Toml.Scalar
