import FlowAudit.Profile.Basic
import FlowAudit.Toml.Reader

set_option autoImplicit false

/-!
Reading profiles from TOML documents. A record is a table, or an array of its fields in their
order; a date stands for a table of which no key is known. Unknown keys are skipped, but the
numbers under them need values; what follows the fields in an array is not looked at.
-/
namespace FlowAudit.Toml.Item

/-- The named members of a table, in the order of the names; one that is absent has no item. -/
def namedMembers? (names : List String) (members : Members) : Option (List (Option Item)) :=
  if membersHaveValues (members.filter fun (name, _) => !names.contains name) then
    some (names.map fun name => members.lookup name)
  else none

/-- The values of the named fields, in the order of the names; a field that is absent has none. An
array has to have all of them. -/
def fields? (names : List String) (item : Item) : Option (List (Option Item)) :=
  let ofItems (items : List Item) : Option (List (Option Item)) :=
    if items.length < names.length then none
    else some ((items.take names.length).map some)
  match item with
  | .table _ members => namedMembers? names members
  | .moment _ => some (names.map fun _ => none)
  | .array items => ofItems items
  | .tables items => ofItems (items.map (.table .header))
  | _ => none

def items? : Item → Option (List Item)
  | .array items => some items
  | .tables items => some (items.map (.table .header))
  | _ => none

def text? : Item → Option String
  | .text value => some value
  | _ => none

def natural? : Item → Option Nat
  | .integer value => if 0 ≤ value then some value.toNat else none
  | _ => none

def uint16? (item : Item) : Option UInt16 :=
  item.natural?.bind fun number =>
    if bound : number < UInt16.size then some (UInt16.ofNatLT number bound) else none

def uint32? (item : Item) : Option UInt32 :=
  item.natural?.bind fun number =>
    if bound : number < UInt32.size then some (UInt32.ofNatLT number bound) else none

def uint64? (item : Item) : Option UInt64 :=
  item.natural?.bind fun number =>
    if bound : number < UInt64.size then some (UInt64.ofNatLT number bound) else none

/-- A float may be written as an integer of at most 64 bits. -/
def float? : Item → Option Float
  | .float value => some value
  | .integer value =>
      if Int64.minValue.toInt ≤ value ∧ value < UInt64.size then
        let magnitude := value.natAbs.toUInt64.toFloat
        some (if value < 0 then -magnitude else magnitude)
      else none
  | _ => none

/-- Reads a field that may be absent. -/
def optional? {α : Type} (read : Item → Option α) : Option Item → Option (Option α)
  | none => some none
  | some item => (read item).map some

end FlowAudit.Toml.Item

namespace FlowAudit.Profile

open FlowAudit.Toml

namespace Overrides

def fieldNames : List String :=
  ["control_port_start", "control_port_end", "duplicate_threshold", "closed_loop_threshold",
    "spoofed_threshold", "closed_loop_base_rate", "min_droppable_pkts", "min_packet_drops",
    "segment_size", "ack_offset"]

def ofToml? (item : Item) : Option Overrides :=
  match item.fields? fieldNames with
  | some [portStart, portEnd, duplicate, closedLoop, spoofed, baseRate, droppable, dropped,
      segmentSize, ackOffset] => do
      return {
        controlPortStart := ← Item.optional? Item.uint16? portStart
        controlPortEnd := ← Item.optional? Item.uint16? portEnd
        duplicateThreshold := ← Item.optional? Item.float? duplicate
        closedLoopThreshold := ← Item.optional? Item.float? closedLoop
        spoofedThreshold := ← Item.optional? Item.float? spoofed
        closedLoopBaseRate := ← Item.optional? Item.float? baseRate
        minDroppable := ← Item.optional? Item.uint64? droppable
        minDropped := ← Item.optional? Item.uint64? dropped
        segmentSize := ← Item.optional? Item.uint32? segmentSize
        ackOffset := ← Item.optional? Item.uint32? ackOffset }
  | _ => none

end Overrides

def GroupRule.ofToml? (item : Item) : Option GroupRule :=
  match item.fields? ["label", "pattern"] with
  | some [some label, some pattern] => do return ⟨← label.text?, ← pattern.text?⟩
  | _ => none

/-- The profile that the members of a document describe. -/
def ofMembers? (members : Members) : Option Profile :=
  match Item.namedMembers? ["config", "file_prefix", "groups"] members with
  | some [overrides, fileMark, groups] => do
      let overrides ← Item.optional? Overrides.ofToml? overrides
      let fileMark ← Item.optional? Item.text? fileMark
      let groups ← Item.optional?
        (fun item => item.items?.bind fun items => items.mapM GroupRule.ofToml?) groups
      return {
        overrides := overrides.getD {}
        fileMark := fileMark
        groups := groups.getD [] }
  | _ => none

def ofDocument? (text : List Char) : Option Profile :=
  (readDocument? text).bind ofMembers?

end FlowAudit.Profile
