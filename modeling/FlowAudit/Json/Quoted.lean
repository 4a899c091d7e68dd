set_option autoImplicit false

/-!
The spelling of JSON strings. `spell` writes a text, `meaning?` reads a spelling, and `scan` finds
the end of a spelling in a longer text. A spelling may hold the escape of a surrogate that has no
partner; it can be scanned, but it has no meaning.
-/
namespace FlowAudit.Json.Quoted

def hexDigit (digit : Nat) : Char :=
  if digit < 10 then Char.ofNat (48 + digit) else Char.ofNat (87 + digit)

def hexValue? (char : Char) : Option Nat :=
  let point := char.toNat
  if 48 ≤ point ∧ point ≤ 57 then some (point - 48)
  else if 97 ≤ point ∧ point ≤ 102 then some (point - 87)
  else if 65 ≤ point ∧ point ≤ 70 then some (point - 55)
  else none

/-- The number that four hexadecimal digits denote. -/
def hexUnit? (a b c d : Char) : Option Nat := do
  let a ← hexValue? a
  let b ← hexValue? b
  let c ← hexValue? c
  let d ← hexValue? d
  return 4096 * a + 256 * b + 16 * c + d

/-- What a letter stands for after a backslash. -/
def escapeTarget? : Char → Option Char
  | '"' => some '"'
  | '\\' => some '\\'
  | '/' => some '/'
  | 'b' => some '\x08'
  | 'f' => some '\x0c'
  | 'n' => some '\n'
  | 'r' => some '\r'
  | 't' => some '\t'
  | _ => none

/-- Only the quote, the backslash and the controls below U+0020 are escaped. -/
def escape (char : Char) : List Char :=
  if char = '"' then ['\\', '"']
  else if char = '\\' then ['\\', '\\']
  else if char = '\x08' then ['\\', 'b']
  else if char = '\x0c' then ['\\', 'f']
  else if char = '\n' then ['\\', 'n']
  else if char = '\r' then ['\\', 'r']
  else if char = '\t' then ['\\', 't']
  else if char.toNat < 32 then
    ['\\', 'u', '0', '0', hexDigit (char.toNat / 16), hexDigit (char.toNat % 16)]
  else [char]

def spell (text : List Char) : List Char :=
  text.flatMap escape

/-- The spelling up to the closing quote, and what follows that quote. -/
def scan : List Char → Option (List Char × List Char)
  | [] => none
  | '"' :: rest => some ([], rest)
  | '\\' :: 'u' :: a :: b :: c :: d :: rest =>
      if (hexUnit? a b c d).isSome then
        (scan rest).map fun (spelling, after) =>
          ('\\' :: 'u' :: a :: b :: c :: d :: spelling, after)
      else none
  | '\\' :: letter :: rest =>
      if (escapeTarget? letter).isSome then
        (scan rest).map fun (spelling, after) => ('\\' :: letter :: spelling, after)
      else none
  | char :: rest =>
      if char = '\\' ∨ char.toNat < 32 then none
      else (scan rest).map fun (spelling, after) => (char :: spelling, after)

/-- The code points and escaped code units of a spelling, in order. -/
def units? : List Char → Option (List Nat)
  | [] => some []
  | '\\' :: 'u' :: a :: b :: c :: d :: rest => do
      let unit ← hexUnit? a b c d
      let units ← units? rest
      return unit :: units
  | '\\' :: letter :: rest => do
      let target ← escapeTarget? letter
      let units ← units? rest
      return target.toNat :: units
  | char :: rest => do
      let units ← units? rest
      return char.toNat :: units

def isHighSurrogate (unit : Nat) : Bool :=
  0xD800 ≤ unit && unit < 0xDC00

def isLowSurrogate (unit : Nat) : Bool :=
  0xDC00 ≤ unit && unit < 0xE000

/-- Joins each high surrogate with the low one after it; a surrogate without a partner is
refused. -/
def join? : List Nat → Option (List Char)
  | [] => some []
  | [unit] =>
      if isHighSurrogate unit || isLowSurrogate unit then none else some [Char.ofNat unit]
  | unit :: next :: rest =>
      if isHighSurrogate unit then
        if isLowSurrogate next then
          (join? rest).map (Char.ofNat (0x10000 + 0x400 * (unit - 0xD800) + (next - 0xDC00)) :: ·)
        else none
      else if isLowSurrogate unit then none
      else (join? (next :: rest)).map (Char.ofNat unit :: ·)

/-- The text that a spelling denotes. -/
def meaning? (spelling : List Char) : Option (List Char) :=
  (units? spelling).bind join?

end FlowAudit.Json.Quoted
