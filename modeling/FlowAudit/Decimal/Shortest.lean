import FlowAudit.Text.Numeral

set_option autoImplicit false

/-!
Decimal digits of finite doubles, in exact arithmetic. A positive double is a mantissa times a
power of two; the reals that round to it form an interval, whose ends belong to it when the
mantissa is even. `shortest` takes the first decimal grid with a point in that interval and the
point nearest to the double; `rounded` takes a grid with a fixed number of digits.
-/
namespace FlowAudit.Decimal

open FlowAudit.Text

def twoTo (power : Nat) : Nat :=
  Nat.pow 2 power

def tenTo (power : Nat) : Nat :=
  Nat.pow 10 power

/-- The mantissas of normal doubles start here, and twice as high they end. -/
def leastMantissa : Nat := 0x10000000000000

/-- The bits of doubles with a sign start here. -/
def signBit : Nat := 0x8000000000000000

/-- A mantissa times a power of two. -/
structure Binary where
  mantissa : Nat
  power : Int
  deriving Repr, DecidableEq

namespace Binary

/-- The magnitude of a finite double. -/
def ofFloat (value : Float) : Binary :=
  let bits := value.toBits.toNat % signBit
  let exponent : Nat := bits / leastMantissa
  let fraction := bits % leastMantissa
  if exponent = 0 then ⟨fraction, -1074⟩
  else ⟨fraction + leastMantissa, (exponent : Int) - 1075⟩

/-- The magnitude as a quotient of natural numbers. -/
def ratio (value : Binary) : Nat × Nat :=
  (value.mantissa * twoTo value.power.toNat, twoTo (-value.power).toNat)

/-- Twice the distance to the lower end of the interval that rounds to the value, in units of half
a step. Below a power of two the doubles lie twice as close. -/
def lowerGap (value : Binary) : Nat :=
  if value.mantissa = leastMantissa ∧ value.power ≠ -1074 then 1 else 2

end Binary

/-- A coefficient times a power of ten. -/
structure Digits where
  coefficient : Nat
  power : Int
  deriving Repr, DecidableEq

/-- How a number half way between two grid points is rounded. -/
inductive Tie where
  | toEven
  | up
  deriving Repr, DecidableEq

/-- No positive double is below this power of one tenth. -/
def tenthsBound : Nat := 340

/-- The power of ten of the first digit of a positive quotient that is not below 10^-340. -/
def leadingPower (numerator denominator : Nat) : Int :=
  (decimal (numerator * tenTo tenthsBound / denominator)).length - 1 - tenthsBound

/-- Takes zeros from the end of a coefficient; the fuel bounds their number. -/
def Digits.trimmed (fuel : Nat) (digits : Digits) : Digits :=
  match fuel with
  | 0 => digits
  | fuel + 1 =>
      if digits.coefficient ≠ 0 ∧ digits.coefficient % 10 = 0 then
        trimmed fuel ⟨digits.coefficient / 10, digits.power + 1⟩
      else digits

/-- The point of the grid of step 10^`power` that is nearest to the value, among the two
neighbours of the value that round to it. -/
def gridPoint? (tie : Tie) (value : Binary) (power : Int) : Option Digits :=
  let (numerator, denominator) := value.ratio
  let unit := twoTo value.power.toNat
  let scale := tenTo (-power).toNat
  let step := denominator * tenTo power.toNat
  let below := numerator * scale / step
  let low := (4 * numerator - value.lowerGap * unit) * scale
  let high := (4 * numerator + 2 * unit) * scale
  let closed := value.mantissa % 2 = 0
  let lowerHit := low < 4 * below * step ∨ (closed ∧ low = 4 * below * step)
  let upperHit := 4 * (below + 1) * step < high ∨ (closed ∧ 4 * (below + 1) * step = high)
  let excess := 2 * (numerator * scale % step)
  let nearer := excess < step ∨ (excess = step ∧ tie = .toEven ∧ below % 2 = 0)
  if lowerHit ∧ (nearer ∨ ¬ upperHit) then some ⟨below, power⟩
  else if upperHit then some ⟨below + 1, power⟩
  else none

/-- The fewest digits that read back as the value, and of those the nearest. Seventeen digits
always suffice. -/
def shortest (tie : Tie) (value : Binary) : Digits :=
  let leading := leadingPower value.ratio.1 value.ratio.2
  let grids := (List.range 17).map fun (count : Nat) => leading - (count : Int)
  let found := grids.findSome? (gridPoint? tie value)
  (found.map (Digits.trimmed 17)).getD ⟨value.ratio.1 / value.ratio.2, 0⟩

/-- The quotient rounded to the nearest natural number, a half to the even one. -/
def roundQuotient (numerator denominator : Nat) : Nat :=
  let below := numerator / denominator
  let excess := 2 * (numerator % denominator)
  if excess < denominator ∨ (excess = denominator ∧ below % 2 = 0) then below else below + 1

/-- The value rounded to one digit and `places` digits after it. -/
def rounded (places : Nat) (value : Binary) : Digits :=
  let (numerator, denominator) := value.ratio
  let power := leadingPower numerator denominator - places
  let coefficient :=
    roundQuotient (numerator * tenTo (-power).toNat) (denominator * tenTo power.toNat)
  if coefficient = tenTo (places + 1) then ⟨tenTo places, power + 1⟩ else ⟨coefficient, power⟩

end FlowAudit.Decimal
