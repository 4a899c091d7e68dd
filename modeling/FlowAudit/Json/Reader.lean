import FlowAudit.Json.Number
import FlowAudit.Json.Quoted
import FlowAudit.Json.Value

set_option autoImplicit false

/-!
Reading JSON texts. The grammar is the strict one: no comments, no trailing commas, no leading
zeros, and nothing but blanks after the value.
-/
namespace FlowAudit.Json

mutual

/-- One value at the start of a text, and what follows it. Each step uses one unit of fuel. -/
def readValue : Nat → List Char → Option (Value × List Char)
  | 0, _ => none
  | fuel + 1, text =>
      match skipBlank text with
      | 'n' :: 'u' :: 'l' :: 'l' :: rest => some (.null, rest)
      | 't' :: 'r' :: 'u' :: 'e' :: rest => some (.boolean true, rest)
      | 'f' :: 'a' :: 'l' :: 's' :: 'e' :: rest => some (.boolean false, rest)
      | '"' :: rest => (Quoted.scan rest).map fun (spelling, after) => (.string spelling, after)
      | '[' :: rest =>
          match skipBlank rest with
          | ']' :: after => some (.array [], after)
          | _ => readItems fuel [] rest
      | '{' :: rest =>
          match skipBlank rest with
          | '}' :: after => some (.object [], after)
          | _ => readMembers fuel [] rest
      | rest => (Number.scan rest).map fun (spelling, after) => (.number spelling, after)

/-- The items of an array from the next one on; those before it are held in reverse. -/
def readItems : Nat → List Value → List Char → Option (Value × List Char)
  | 0, _, _ => none
  | fuel + 1, before, text =>
      match readValue fuel text with
      | none => none
      | some (item, rest) =>
          match skipBlank rest with
          | ',' :: rest => readItems fuel (item :: before) rest
          | ']' :: rest => some (.array (item :: before).reverse, rest)
          | _ => none

/-- The members of an object from the next one on; those before it are held in reverse. -/
def readMembers : Nat → List (List Char × Value) → List Char → Option (Value × List Char)
  | 0, _, _ => none
  | fuel + 1, before, text =>
      match readMember fuel text with
      | none => none
      | some (member, rest) =>
          match skipBlank rest with
          | ',' :: rest => readMembers fuel (member :: before) rest
          | '}' :: rest => some (.object (member :: before).reverse, rest)
          | _ => none

def readMember : Nat → List Char → Option ((List Char × Value) × List Char)
  | 0, _ => none
  | fuel + 1, text =>
      match skipBlank text with
      | '"' :: rest =>
          match Quoted.scan rest with
          | none => none
          | some (key, rest) =>
              match skipBlank rest with
              | ':' :: rest => (readValue fuel rest).map fun (value, after) => ((key, value), after)
              | _ => none
      | _ => none

end

/-- The value that a whole text spells. A step takes at most three units for each character. -/
def parse? (text : List Char) : Option Value :=
  match readValue (3 * text.length + 3) text with
  | some (value, rest) => if (skipBlank rest).isEmpty then some value else none
  | none => none

end FlowAudit.Json
