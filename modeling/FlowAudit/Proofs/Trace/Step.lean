import FlowAudit.Proofs.Flow.Table
import FlowAudit.Proofs.Trace.Event

set_option autoImplicit false

/-!
Steps of a session. Whatever a line says, applying it ends in one of eight ways; `Session.Step` lists
them with the state that each leaves, and the later modules argue by cases on it.
-/
namespace FlowAudit.Trace

open FlowAudit.Flow

/-- The counts after one more line, before it is known what becomes of it. -/
def Summary.next (summary : Summary) : Summary :=
  { summary with lines := summary.lines + 1 }

namespace Session

inductive Step (before : Session) : Event → Session → Except LineError Outcome → Prop
  | ignored :
      Step before .unrelated
        { before with
          summary := { before.summary.next with ignored := before.summary.ignored + 1 } }
        (.ok .ignored)
  | malformed (cause : DecodeError) :
      Step before (.malformed cause)
        { before with
          summary := { before.summary.next with malformed := before.summary.malformed + 1 } }
        (.error (.malformed (before.summary.lines + 1) cause))
  | control :
      Step before .control
        { before with
          summary := { before.summary.next with control := before.summary.control + 1 } }
        (.ok .controlTraffic)
  | opened (key : Key) (time : String) (new : key ∉ before.table.keys) :
      Step before (.opening key time)
        { before with
          table := before.table.append key (Record.opened time) new
          summary := { before.summary.next with flowsOpened := before.summary.flowsOpened + 1 } }
        (.ok (.flowOpened key))
  | repeatedOpening (key : Key) (time : String) (known : key ∈ before.table.keys) :
      Step before (.opening key time) { before with summary := before.summary.next }
        (.ok (.repeatedSyn key))
  | unmatched (key : Key) (ack : UInt32) (time : String) (absent : key ∉ before.table.keys) :
      Step before (.acknowledgement key ack time)
        { before with
          summary := { before.summary.next with
            unmatched := before.summary.unmatched ++ [⟨before.summary.lines + 1, key, ack⟩] } }
        (.error (.unmatchedAck ⟨before.summary.lines + 1, key, ack⟩))
  | recorded (key : Key) (ack : UInt32) (time : String) (known : key ∈ before.table.keys)
      (new : before.table.ackTime? key ack = none) :
      Step before (.acknowledgement key ack time)
        { before with
          table := before.table.recordAck key ack time
          summary := { before.summary.next with acksRecorded := before.summary.acksRecorded + 1 } }
        (.ok (.ackRecorded key ack))
  | repeatedAck (key : Key) (ack : UInt32) (time : String)
      (known : (before.table.ackTime? key ack).isSome) :
      Step before (.acknowledgement key ack time)
        { before with
          summary := { before.summary.next with repeatedAcks := before.summary.repeatedAcks + 1 } }
        (.ok (.repeatedAck key ack))

theorem step_apply (session : Session) (event : Event) :
    Step session event (session.apply event).1 (session.apply event).2 := by
  cases event with
  | malformed cause => exact .malformed cause
  | control => exact .control
  | unrelated => exact .ignored
  | opening key time =>
    by_cases known : key ∈ session.table.keys
    · simp only [apply, Table.contains, known, decide_true, if_true]
      exact .repeatedOpening key time known
    · simp only [apply, Table.contains, Table.openFlow, known, decide_false, Bool.false_eq_true,
        if_false, dite_false]
      exact .opened key time known
  | acknowledgement key ack time =>
    cases found : session.table.get? key with
    | none =>
      simp only [apply, found]
      exact .unmatched key ack time ((Table.get?_eq_none_iff session.table key).mp found)
    | some record =>
      have view : session.table.ackTime? key ack = record.acks.time? ack := by
        rw [Table.ackTime?, found, Option.bind_some, Record.ackTime?]
      by_cases noted : record.acks.contains ack = true
      · simp only [apply, found, noted, if_true]
        exact .repeatedAck key ack time (view ▸ noted)
      · have known := (Table.exists_get?_iff session.table key).mp ⟨record, found⟩
        have new : session.table.ackTime? key ack = none := by
          rw [view]
          exact Option.not_isSome_iff_eq_none.mp noted
        simp only [apply, found, noted, Bool.false_eq_true, if_false]
        exact .recorded key ack time known new

theorem step_ingest (session : Session) (line : List Char) :
    Step session (Event.ofLine session.control line) (session.ingest line).1
      (session.ingest line).2 :=
  step_apply session _

end Session

end FlowAudit.Trace
