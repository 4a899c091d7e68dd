import FlowAudit.Json.Quoted

set_option autoImplicit false

/-!
Quoted TOML strings. Double quotes allow escapes and single quotes do not; three quotes allow line
ends, which are kept as they are, and up to two more quotes just before the closing ones. A
carriage return stands only before a line feed. Each reader takes the text after the opening
quotes, and gives the meaning and what follows the closing quotes.
-/
namespace FlowAudit.Toml.Quoted

/-- Tabs and what is not a control may stand in a string or a comment. -/
def isPlain (char : Char) : Bool :=
  char == '\t' || (0x20 ≤ char.toNat && char.toNat != 0x7F)

def scalar? (point : Nat) : Option Char :=
  if point.isValidChar then some (Char.ofNat point) else none

def hexPair? (a b : Char) : Option Nat :=
  Json.Quoted.hexUnit? '0' '0' a b

/-- What a letter stands for after a backslash. -/
def escapeTarget? : Char → Option Char
  | '"' => some '"'
  | '\\' => some '\\'
  | 'b' => some '\x08'
  | 'e' => some '\x1b'
  | 'f' => some '\x0c'
  | 'n' => some '\n'
  | 'r' => some '\r'
  | 't' => some '\t'
  | _ => none

/-- The character that eight hexadecimal digits denote. -/
def longScalar? (a b c d e f g h : Char) : Option Char := do
  let high ← Json.Quoted.hexUnit? a b c d
  let low ← Json.Quoted.hexUnit? e f g h
  scalar? (65536 * high + low)

/-- Puts a character before the meaning of the rest. -/
def push (char : Char) (rest : Option (List Char × List Char)) : Option (List Char × List Char) :=
  rest.map fun (meaning, after) => (char :: meaning, after)

def basic? : List Char → Option (List Char × List Char)
  | [] => none
  | '"' :: after => some ([], after)
  | '\\' :: 'x' :: a :: b :: rest => do
      let char ← (hexPair? a b).bind scalar?
      push char (basic? rest)
  | '\\' :: 'u' :: a :: b :: c :: d :: rest => do
      let char ← (Json.Quoted.hexUnit? a b c d).bind scalar?
      push char (basic? rest)
  | '\\' :: 'U' :: a :: b :: c :: d :: e :: f :: g :: h :: rest => do
      let char ← longScalar? a b c d e f g h
      push char (basic? rest)
  | '\\' :: letter :: rest => do
      let char ← escapeTarget? letter
      push char (basic? rest)
  | char :: rest => if isPlain char && char != '\\' then push char (basic? rest) else none

def literal? : List Char → Option (List Char × List Char)
  | [] => none
  | '\'' :: after => some ([], after)
  | char :: rest => if isPlain char then push char (literal? rest) else none

/-- Up to two quotes that still belong to the string, and what follows them. -/
def lastQuotes (quote : Char) : List Char → List Char × List Char
  | first :: second :: rest =>
      if first = quote then
        if second = quote then ([quote, quote], rest) else ([quote], second :: rest)
      else ([], first :: second :: rest)
  | [only] => if only = quote then ([quote], []) else ([], [only])
  | [] => ([], [])

def isSpace (char : Char) : Bool :=
  char == ' ' || char == '\t'

/-- Whether only spaces come before the next line end. -/
def endsLine (text : List Char) : Bool :=
  match text.dropWhile isSpace with
  | '\n' :: _ => true
  | '\r' :: '\n' :: _ => true
  | _ => false

/-- A string in three double quotes. A backslash at the end of a line skips all spaces and line
ends after it; `skipping` says that this is going on. -/
def multilineBasic? (skipping : Bool) : List Char → Option (List Char × List Char)
  | [] => none
  | '"' :: '"' :: '"' :: rest => some (lastQuotes '"' rest)
  | '\\' :: 'x' :: a :: b :: rest => do
      let char ← (hexPair? a b).bind scalar?
      push char (multilineBasic? false rest)
  | '\\' :: 'u' :: a :: b :: c :: d :: rest => do
      let char ← (Json.Quoted.hexUnit? a b c d).bind scalar?
      push char (multilineBasic? false rest)
  | '\\' :: 'U' :: a :: b :: c :: d :: e :: f :: g :: h :: rest => do
      let char ← longScalar? a b c d e f g h
      push char (multilineBasic? false rest)
  | '\\' :: letter :: rest =>
      match escapeTarget? letter with
      | some char => push char (multilineBasic? false rest)
      | none => if endsLine (letter :: rest) then multilineBasic? true (letter :: rest) else none
  | '\r' :: '\n' :: rest =>
      if skipping then multilineBasic? true rest
      else push '\r' (push '\n' (multilineBasic? false rest))
  | char :: rest =>
      if skipping && (isSpace char || char == '\n') then multilineBasic? true rest
      else if char == '\n' || (isPlain char && char != '\\') then
        push char (multilineBasic? false rest)
      else none

def multilineLiteral? : List Char → Option (List Char × List Char)
  | [] => none
  | '\'' :: '\'' :: '\'' :: rest => some (lastQuotes '\'' rest)
  | '\r' :: '\n' :: rest => push '\r' (push '\n' (multilineLiteral? rest))
  | char :: rest =>
      if char == '\n' || isPlain char then push char (multilineLiteral? rest) else none

/-- A line end right after three opening quotes is not part of the string. -/
def dropFirstLineEnd : List Char → List Char
  | '\n' :: rest => rest
  | '\r' :: '\n' :: rest => rest
  | text => text

/-- The string at the start of a text, if one starts there: some meaning and rest, or a fault. -/
def read? : List Char → Option (Option (List Char × List Char))
  | '"' :: '"' :: '"' :: rest => some (multilineBasic? false (dropFirstLineEnd rest))
  | '"' :: rest => some (basic? rest)
  | '\'' :: '\'' :: '\'' :: rest => some (multilineLiteral? (dropFirstLineEnd rest))
  | '\'' :: rest => some (literal? rest)
  | _ => none

end FlowAudit.Toml.Quoted
