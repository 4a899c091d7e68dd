import FlowAudit.Decimal.Literal
import FlowAudit.Flow.Table

set_option autoImplicit false

/-!
Completion times of flows. A transfer of some packets is complete when the ack number arrives that
acknowledges its last byte; the completion time is the time of that ack less the start. A flow
without such a time is listed as incomplete and never counted as zero.
-/
namespace FlowAudit.Trace

open FlowAudit.Flow

structure CompletionSettings where
  /-- Payload bytes in a packet. -/
  segmentSize : UInt32 := 1024
  /-- Sequence numbers that are not payload. -/
  ackOffset : UInt32 := 2
  deriving DecidableEq, Repr

/-- The product, unless it is too large: then the bits above the lower half are not all zero. -/
def checkedMul (first second : UInt32) : Option UInt32 :=
  let product := first.toUInt64 * second.toUInt64
  if product >>> 32 = 0 then some product.toUInt32 else none

/-- The sum, unless it is too large: then it wraps around and comes out below what it adds to. -/
def checkedAdd (first second : UInt32) : Option UInt32 :=
  let sum := first + second
  if sum < first then none else some sum

/-- The ack number of the last byte, unless it is too large for an ack number. -/
def CompletionSettings.completionAck (settings : CompletionSettings) (packets : UInt32) :
    Option UInt32 := do
  let payload ← checkedMul packets settings.segmentSize
  checkedAdd payload settings.ackOffset

/-- Why a flow has no completion time. -/
inductive IncompleteFlow where
  | missingAck (key : Key) (ack : UInt32)
  | badTimestamp (key : Key) (text : String)
  deriving DecidableEq, Repr

def IncompleteFlow.message : IncompleteFlow → String
  | missingAck key ack => s!"flow {key.text} never saw ack {ack.toNat}"
  | badTimestamp key text => s!"flow {key.text} has non-numeric timestamp '{text}'"

def seconds (key : Key) (text : String) : Except IncompleteFlow Float :=
  match Decimal.float? text.toList with
  | some value => .ok value
  | none => .error (.badTimestamp key text)

/-- The time from the start of a flow to the first sight of an ack number. -/
def completionTime (key : Key) (record : Record) (ack : UInt32) : Except IncompleteFlow Float :=
  match record.ackTime? ack with
  | none => .error (.missingAck key ack)
  | some done => do
      let finish ← seconds key done
      let start ← seconds key record.start
      return finish - start

structure CompletionSamples where
  times : List Float := []
  incomplete : List Key := []

/-- Puts a flow last on the list that its completion time, or the lack of one, belongs to. -/
def CompletionSamples.push (ack : UInt32) (samples : CompletionSamples) (flow : Key × Record) :
    CompletionSamples :=
  match completionTime flow.1 flow.2 ack with
  | .ok time => { samples with times := samples.times ++ [time] }
  | .error _ => { samples with incomplete := samples.incomplete ++ [flow.1] }

/-- The completion times at an ack number, flow after flow in the order of the table. -/
def completionTimesAt (table : Table) (ack : UInt32) : CompletionSamples :=
  table.flows.foldl (CompletionSamples.push ack) {}

/-- A packet count whose completion would need a larger ack number than there is. -/
structure CompletionOverflow where
  packets : UInt32
  deriving DecidableEq, Repr

def CompletionOverflow.message (error : CompletionOverflow) : String :=
  s!"packet count {error.packets.toNat} overflows the ack number space"

def completionTimes (table : Table) (settings : CompletionSettings) (packets : UInt32) :
    Except CompletionOverflow CompletionSamples :=
  match settings.completionAck packets with
  | none => .error ⟨packets⟩
  | some ack => .ok (completionTimesAt table ack)

end FlowAudit.Trace
