import FlowAudit.Json.Fields
import FlowAudit.Json.Printer
import FlowAudit.Trace.Completion
import FlowAudit.Trace.PortRange
import FlowAudit.Verdict.Settings

set_option autoImplicit false

/-!
The settings of all analyses together, and their JSON form. Reading checks no setting beyond its
type.
-/
namespace FlowAudit.Profile

open FlowAudit.Trace

structure Settings where
  controlPorts : PortRange := PortRange.control
  verdict : Verdict.Settings := {}
  completion : CompletionSettings := {}

end FlowAudit.Profile

namespace FlowAudit.Trace

namespace PortRange

def ofJson? (value : Json.Value) : Option PortRange :=
  match value.fields? ["start", "end"] with
  | some [some first, some last] => do return ⟨← first.uint16?, ← last.uint16?⟩
  | _ => none

def toJson (range : PortRange) : Json.Value :=
  .object [
    Json.Value.member "start" (.ofNat range.first.toNat),
    Json.Value.member "end" (.ofNat range.last.toNat)]

end PortRange

namespace CompletionSettings

def ofJson? (value : Json.Value) : Option CompletionSettings :=
  match value.fields? ["segment_size", "ack_offset"] with
  | some [some segmentSize, some ackOffset] =>
      do return ⟨← segmentSize.uint32?, ← ackOffset.uint32?⟩
  | _ => none

def toJson (settings : CompletionSettings) : Json.Value :=
  .object [
    Json.Value.member "segment_size" (.ofNat settings.segmentSize.toNat),
    Json.Value.member "ack_offset" (.ofNat settings.ackOffset.toNat)]

end CompletionSettings

end FlowAudit.Trace

namespace FlowAudit.Verdict.Settings

def fieldNames : List String :=
  ["duplicate_threshold", "closed_loop_threshold", "spoofed_threshold", "closed_loop_base_rate",
    "min_droppable_pkts", "min_packet_drops"]

/-- A count that is absent is zero; one that is there has to be a count. -/
def minimum? : Option Json.Value → Option UInt64
  | none => some 0
  | some value => value.uint64?

def ofJson? (value : Json.Value) : Option Settings :=
  match value.fields? fieldNames with
  | some [some duplicate, some closedLoop, some spoofed, some baseRate, droppable, dropped] => do
      return {
        duplicateThreshold := ← duplicate.float?
        closedLoopThreshold := ← closedLoop.float?
        spoofedThreshold := ← spoofed.float?
        closedLoopBaseRate := ← baseRate.float?
        minDroppable := ← minimum? droppable
        minDropped := ← minimum? dropped }
  | _ => none

def toJson (settings : Settings) : Json.Value :=
  .object [
    Json.Value.member "duplicate_threshold" (.ofFloat settings.duplicateThreshold),
    Json.Value.member "closed_loop_threshold" (.ofFloat settings.closedLoopThreshold),
    Json.Value.member "spoofed_threshold" (.ofFloat settings.spoofedThreshold),
    Json.Value.member "closed_loop_base_rate" (.ofFloat settings.closedLoopBaseRate),
    Json.Value.member "min_droppable_pkts" (.ofNat settings.minDroppable.toNat),
    Json.Value.member "min_packet_drops" (.ofNat settings.minDropped.toNat)]

end FlowAudit.Verdict.Settings

namespace FlowAudit.Profile.Settings

open FlowAudit.Trace

def ofJson? (value : Json.Value) : Option Settings :=
  match value.fields? ["trace", "verdict", "completion"] with
  | some [some trace, some verdict, some completion] =>
      match trace.fields? ["control_ports"] with
      | some [some control] => do
          return {
            controlPorts := ← PortRange.ofJson? control
            verdict := ← Verdict.Settings.ofJson? verdict
            completion := ← CompletionSettings.ofJson? completion }
      | _ => none
  | _ => none

def toJson (settings : Settings) : Json.Value :=
  .object [
    Json.Value.member "trace"
      (.object [Json.Value.member "control_ports" settings.controlPorts.toJson]),
    Json.Value.member "verdict" settings.verdict.toJson,
    Json.Value.member "completion" settings.completion.toJson]

end FlowAudit.Profile.Settings
