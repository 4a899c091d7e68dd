set_option autoImplicit false

/-!
JSON values as syntax trees. Numbers and strings keep their spelling, because a value that no one
asks for is never interpreted, and because the key of an object may have to be spelled in one
exact way.
-/
namespace FlowAudit.Json

/-- A string is what stands between its quotes, escapes included. -/
inductive Value where
  | null
  | boolean (value : Bool)
  | number (spelling : List Char)
  | string (spelling : List Char)
  | array (items : List Value)
  | object (members : List (List Char × Value))
  deriving Repr, BEq, Inhabited

/-- The characters that may stand between tokens. -/
def isBlank (char : Char) : Bool :=
  char == ' ' || char == '\t' || char == '\n' || char == '\r'

def skipBlank (text : List Char) : List Char :=
  text.dropWhile isBlank

end FlowAudit.Json
