import FlowAudit.Decimal.Layout
import FlowAudit.Json.Quoted
import FlowAudit.Json.Value
import FlowAudit.Text.Numeral

set_option autoImplicit false

/-!
Writing JSON texts: `compact` without blanks, `indented` with one item or member a line and two
spaces for each level.
-/
namespace FlowAudit.Json

open FlowAudit.Text

namespace Value

def ofNat (value : Nat) : Value :=
  .number (decimal value)

def ofText (text : String) : Value :=
  .string (Quoted.spell text.toList)

/-- A double that is not finite has no JSON number. -/
def ofFloat (value : Float) : Value :=
  if value.isFinite then .number (Decimal.Layout.json.finite value) else .null

/-- A member whose key is a text. -/
def member (key : String) (value : Value) : List Char × Value :=
  (Quoted.spell key.toList, value)

end Value

def quote (spelling : List Char) : List Char :=
  '"' :: spelling ++ ['"']

mutual

def compact : Value → List Char
  | .null => ['n', 'u', 'l', 'l']
  | .boolean true => ['t', 'r', 'u', 'e']
  | .boolean false => ['f', 'a', 'l', 's', 'e']
  | .number spelling => spelling
  | .string spelling => quote spelling
  | .array items => '[' :: compactItems items ++ [']']
  | .object members => '{' :: compactMembers members ++ ['}']

def compactItems : List Value → List Char
  | [] => []
  | [item] => compact item
  | item :: next :: rest => compact item ++ ',' :: compactItems (next :: rest)

def compactMembers : List (List Char × Value) → List Char
  | [] => []
  | [(key, value)] => quote key ++ ':' :: compact value
  | (key, value) :: next :: rest =>
      quote key ++ ':' :: compact value ++ ',' :: compactMembers (next :: rest)

end

/-- A line feed and the indentation of a level. -/
def newLine (level : Nat) : List Char :=
  '\n' :: List.replicate (2 * level) ' '

mutual

def indentedAt (level : Nat) : Value → List Char
  | .null => ['n', 'u', 'l', 'l']
  | .boolean true => ['t', 'r', 'u', 'e']
  | .boolean false => ['f', 'a', 'l', 's', 'e']
  | .number spelling => spelling
  | .string spelling => quote spelling
  | .array [] => ['[', ']']
  | .array (item :: rest) =>
      '[' :: indentedItems (level + 1) (item :: rest) ++ newLine level ++ [']']
  | .object [] => ['{', '}']
  | .object (member :: rest) =>
      '{' :: indentedMembers (level + 1) (member :: rest) ++ newLine level ++ ['}']

def indentedItems (level : Nat) : List Value → List Char
  | [] => []
  | [item] => newLine level ++ indentedAt level item
  | item :: next :: rest =>
      newLine level ++ indentedAt level item ++ ',' :: indentedItems level (next :: rest)

def indentedMembers (level : Nat) : List (List Char × Value) → List Char
  | [] => []
  | [(key, value)] => newLine level ++ quote key ++ ':' :: ' ' :: indentedAt level value
  | (key, value) :: next :: rest =>
      newLine level ++ quote key ++ ':' :: ' ' :: indentedAt level value ++
        ',' :: indentedMembers level (next :: rest)

end

def indented (value : Value) : List Char :=
  indentedAt 0 value

end FlowAudit.Json
