import FlowAudit.Json.Quoted
import FlowAudit.Json.Value

set_option autoImplicit false

/-!
Verdicts on drop events and the labels under which they are read and written.
-/
namespace FlowAudit.Verdict

inductive Classification where
  /-- The drops were answered as a host with congestion control answers them. -/
  | closedLoop
  /-- The drops were ignored as injected traffic ignores them. -/
  | spoofed
  /-- Too many duplicates to trust the evidence. -/
  | duplicateExceeded
  | noDecision
  deriving DecidableEq, Repr

namespace Classification

def all : List Classification :=
  [closedLoop, spoofed, duplicateExceeded, noDecision]

def label : Classification → String
  | closedLoop => "closed-loop"
  | spoofed => "spoofed"
  | duplicateExceeded => "duplicateExceeded"
  | noDecision => "no-decision"

def ofLabel? (text : List Char) : Option Classification :=
  all.find? fun classification => classification.label.toList = text

theorem ofLabel?_label (classification : Classification) :
    ofLabel? classification.label.toList = some classification := by
  cases classification <;> decide

/-- A label as a string, or as the only key of an object with the value null. -/
def ofJson? : Json.Value → Option Classification
  | .string spelling => (Json.Quoted.meaning? spelling).bind ofLabel?
  | .object [(key, .null)] => (Json.Quoted.meaning? key).bind ofLabel?
  | _ => none

end Classification

end FlowAudit.Verdict
