import FlowAudit.Decimal.Shortest

set_option autoImplicit false

/-!
Writing doubles. A `Layout` holds every decision about the text of the shortest digits of a
double; `scientific` writes a fixed number of digits.
-/
namespace FlowAudit.Decimal

open FlowAudit.Text

structure Layout where
  /-- Half way between two shortest candidates. -/
  tie : Tie
  /-- Whether a number is written without an exponent, by the power of ten of its first digit. -/
  positional : Int → Bool
  /-- What follows a whole number that is written without an exponent. -/
  wholeEnd : List Char

/-- JSON numbers have a point or an exponent, and an exponent has its sign. -/
def Layout.json : Layout where
  tie := .toEven
  positional power := -5 ≤ power && power ≤ 15
  wholeEnd := ['.', '0']

/-- In a message a number never has an exponent. -/
def Layout.message : Layout where
  tie := .up
  positional _ := true
  wholeEnd := []

def isNegative (value : Float) : Bool :=
  signBit ≤ value.toBits.toNat

def signText (value : Float) : List Char :=
  if isNegative value then ['-'] else []

/-- The first digit, and a point before the others if there are others. -/
def pointAfterFirst : List Char → List Char
  | first :: second :: rest => first :: '.' :: second :: rest
  | digits => digits

def positionalText (wholeEnd digits : List Char) (power : Int) : List Char :=
  let leading := digits.length - 1 + power
  if leading < 0 then '0' :: '.' :: List.replicate (-leading - 1).toNat '0' ++ digits
  else if 0 ≤ power then digits ++ List.replicate power.toNat '0' ++ wholeEnd
  else
    let whole := leading.toNat + 1
    digits.take whole ++ '.' :: digits.drop whole

def powerText (power : Int) : List Char :=
  (if power < 0 then ['-'] else []) ++ decimal power.natAbs

def plusText (power : Int) : List Char :=
  if power < 0 then [] else ['+']

/-- The text of a finite double. -/
def Layout.finite (layout : Layout) (value : Float) : List Char :=
  let binary := Binary.ofFloat value
  if binary.mantissa = 0 then signText value ++ '0' :: layout.wholeEnd
  else
    let shortest := shortest layout.tie binary
    let digits := decimal shortest.coefficient
    let leading := digits.length - 1 + shortest.power
    signText value ++
      if layout.positional leading then positionalText layout.wholeEnd digits shortest.power
      else pointAfterFirst digits ++ 'e' :: plusText leading ++ powerText leading

/-- The text of a double in a message. -/
def messageText (value : Float) : String :=
  if value.isNaN then "NaN"
  else if value.isFinite then String.ofList (Layout.message.finite value)
  else if isNegative value then "-inf"
  else "inf"

/-- One digit, `places` digits after the point, and the power of ten. -/
def scientific (places : Nat) (value : Float) : String :=
  if value.isNaN then "NaN"
  else if value.isFinite then
    let binary := Binary.ofFloat value
    let text :=
      if binary.mantissa = 0 then pointAfterFirst (List.replicate (places + 1) '0') ++ ['e', '0']
      else
        let digits := rounded places binary
        pointAfterFirst (decimal digits.coefficient) ++ 'e' :: powerText (digits.power + places)
    String.ofList (signText value ++ text)
  else if isNegative value then "-inf"
  else "inf"

end FlowAudit.Decimal
