import FlowAudit.Json.Number
import FlowAudit.Json.Quoted
import FlowAudit.Json.Value

set_option autoImplicit false

/-!
Reading the fields of a record from a JSON value. A record is an object, whose members may come in
any order and among others, or an array of its fields in their order.
-/
namespace FlowAudit.Json.Value

/-- The values of the named fields, in the order of the names; a field that is absent has none.
A name that comes twice is refused, and so is a key without a meaning, whatever its value. -/
def fields? (names : List String) : Value → Option (List (Option Value))
  | .object members => do
      let named ← members.mapM fun (key, value) => (Quoted.meaning? key).map (·, value)
      names.mapM fun name =>
        match named.filter (·.1 = name.toList) with
        | [] => some none
        | [(_, value)] => some (some value)
        | _ => none
  | .array items =>
      if items.length ≤ names.length then
        some ((List.range names.length).map fun index => items[index]?)
      else none
  | _ => none

def text? : Value → Option String
  | .string spelling => (Quoted.meaning? spelling).map String.ofList
  | _ => none

def float? : Value → Option Float
  | .number spelling => Number.float? spelling
  | _ => none

def natural? : Value → Option Nat
  | .number spelling => Number.natural? spelling
  | _ => none

def uint16? (value : Value) : Option UInt16 :=
  value.natural?.bind fun number =>
    if bound : number < UInt16.size then some (UInt16.ofNatLT number bound) else none

def uint32? (value : Value) : Option UInt32 :=
  value.natural?.bind fun number =>
    if bound : number < UInt32.size then some (UInt32.ofNatLT number bound) else none

def uint64? (value : Value) : Option UInt64 :=
  value.natural?.bind fun number =>
    if bound : number < UInt64.size then some (UInt64.ofNatLT number bound) else none

end FlowAudit.Json.Value
