import FlowAudit.Flow.Table
import FlowAudit.Text.Lines
import FlowAudit.Trace.Line
import FlowAudit.Trace.PortRange

set_option autoImplicit false

/-!
Reconstruction of flows from a trace. A line is first read as an `Event`, which depends on the
line and the control range alone; a `Session` then applies events to its table and counts what
became of each line.
-/
namespace FlowAudit.Trace

open FlowAudit.Text FlowAudit.Flow

/-- What a line says about flows. -/
inductive Event where
  | malformed (cause : DecodeError)
  | control
  | opening (key : Key) (time : String)
  | acknowledgement (key : Key) (ack : UInt32) (time : String)
  | unrelated
  deriving DecidableEq, Repr

/-- Traffic on a control port is set apart before anything else is looked at. -/
def Line.event (control : PortRange) (line : Line) : Event :=
  if control.contains line.source || control.contains line.destination then .control
  else
    match line.direction, line.ack with
    | .send, _ => if line.isSyn then .opening line.sendKey line.timestamp else .unrelated
    | .receive, some ack => .acknowledgement line.receiveKey ack line.timestamp
    | _, _ => .unrelated

def Event.ofLine (control : PortRange) (line : List Char) : Event :=
  match Line.decode line with
  | .error cause => .malformed cause
  | .ok none => .unrelated
  | .ok (some decoded) => decoded.event control

/-- An ack for a flow whose opening was not seen before it. -/
structure UnmatchedAck where
  line : Nat
  key : Key
  ack : UInt32
  deriving DecidableEq, Repr

/-- How many lines there were of each kind. A repeated opening is counted as a line only. -/
structure Summary where
  lines : Nat := 0
  ignored : Nat := 0
  control : Nat := 0
  malformed : Nat := 0
  flowsOpened : Nat := 0
  acksRecorded : Nat := 0
  repeatedAcks : Nat := 0
  unmatched : List UnmatchedAck := []
  deriving DecidableEq, Repr

/-- What a line did to the table. -/
inductive Outcome where
  | ignored
  | controlTraffic
  | flowOpened (key : Key)
  | repeatedSyn (key : Key)
  | ackRecorded (key : Key) (ack : UInt32)
  | repeatedAck (key : Key) (ack : UInt32)
  deriving DecidableEq, Repr

/-- Why a line could not be applied. -/
inductive LineError where
  | malformed (line : Nat) (cause : DecodeError)
  | unmatchedAck (ack : UnmatchedAck)
  deriving DecidableEq, Repr

def LineError.message : LineError → String
  | malformed line cause => s!"line {line}: malformed trace line: {cause.message}"
  | unmatchedAck ⟨line, key, ack⟩ =>
      s!"line {line}: ack {ack.toNat} for flow {key.text} has no recorded SYN"

/-- The reconstruction of one trace, as far as it has been read. -/
structure Session where
  control : PortRange
  table : Table := Table.empty
  summary : Summary := {}

namespace Session

/-- Applies what the next line says. An error leaves the session usable. -/
def apply (session : Session) (event : Event) : Session × Except LineError Outcome :=
  let table := session.table
  let summary := { session.summary with lines := session.summary.lines + 1 }
  match event with
  | .unrelated =>
      ({ session with summary := { summary with ignored := summary.ignored + 1 } }, .ok .ignored)
  | .malformed cause =>
      ({ session with summary := { summary with malformed := summary.malformed + 1 } },
        .error (.malformed summary.lines cause))
  | .control =>
      ({ session with summary := { summary with control := summary.control + 1 } },
        .ok .controlTraffic)
  | .opening key time =>
      if table.contains key then ({ session with summary }, .ok (.repeatedSyn key))
      else
        ({ session with
            table := table.openFlow key time
            summary := { summary with flowsOpened := summary.flowsOpened + 1 } },
          .ok (.flowOpened key))
  | .acknowledgement key ack time =>
      match table.get? key with
      | none =>
          let missing := ⟨summary.lines, key, ack⟩
          ({ session with summary := { summary with unmatched := summary.unmatched ++ [missing] } },
            .error (.unmatchedAck missing))
      | some record =>
          if record.acks.contains ack then
            ({ session with
                summary := { summary with repeatedAcks := summary.repeatedAcks + 1 } },
              .ok (.repeatedAck key ack))
          else
            ({ session with
                table := table.recordAck key ack time
                summary := { summary with acksRecorded := summary.acksRecorded + 1 } },
              .ok (.ackRecorded key ack))

def ingest (session : Session) (line : List Char) : Session × Except LineError Outcome :=
  session.apply (Event.ofLine session.control line)

/-- Ingests lines one after another, whatever becomes of each. -/
def ingestLines (session : Session) (lines : List (List Char)) : Session :=
  lines.foldl (fun session line => (session.ingest line).1) session

end Session

/-- The reconstruction of a list of lines from nothing. -/
def reconstruct (control : PortRange) (lines : List (List Char)) : Session :=
  Session.ingestLines { control } lines

/-- The reconstruction of a whole trace. -/
def reconstructText (control : PortRange) (text : List Char) : Session :=
  reconstruct control (lines text)

end FlowAudit.Trace
