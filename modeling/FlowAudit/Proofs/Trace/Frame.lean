import FlowAudit.Proofs.Trace.Replay

set_option autoImplicit false

/-!
What a line leaves alone. Whatever a session has read, one more line changes no more of it than the result
of the line says (`isMinimalStep_ingest`): the table only when a flow is opened or an ack is recorded, and
then by that flow or that ack alone, and of the counts the number of lines and at most one other.
-/
namespace FlowAudit.Trace

open FlowAudit.Flow

/-- One more line, and no more than one other count or the list of unmatched acks is one longer. -/
inductive Summary.CountsOne (before : Summary) : Summary → Prop
  | line : CountsOne before before.next
  | ignored : CountsOne before { before.next with ignored := before.ignored + 1 }
  | control : CountsOne before { before.next with control := before.control + 1 }
  | malformed : CountsOne before { before.next with malformed := before.malformed + 1 }
  | flowsOpened : CountsOne before { before.next with flowsOpened := before.flowsOpened + 1 }
  | acksRecorded : CountsOne before { before.next with acksRecorded := before.acksRecorded + 1 }
  | repeatedAcks : CountsOne before { before.next with repeatedAcks := before.repeatedAcks + 1 }
  | unmatched (missing : UnmatchedAck) :
      CountsOne before { before.next with unmatched := before.unmatched ++ [missing] }

/-- The number of the line that could not be applied. -/
def LineError.line : LineError → Nat
  | malformed line _ => line
  | unmatchedAck missing => missing.line

/-- A result that says that the table has changed. -/
def changesTable : Except LineError Outcome → Bool
  | .ok (.flowOpened _) => true
  | .ok (.ackRecorded _ _) => true
  | _ => false

end FlowAudit.Trace

namespace FlowAudit.Flow.Table

/-- The flow that the first table lacks stands last in the second, opened at the time. -/
structure AddsFlow (before after : Table) (key : Key) (time : String) : Prop where
  new : key ∉ before.keys
  flows : after.flows = before.flows ++ [(key, ⟨time, Timeline.empty⟩)]

/-- One record has one ack more in the second table, at the time; the flows stand as they stood. -/
structure AddsAck (before after : Table) (key : Key) (ack : UInt32) (time : String)
    (known noted : Record) : Prop where
  flows : ∃ front back, before.flows = front ++ (key, known) :: back ∧
    after.flows = front ++ (key, noted) :: back
  new : known.ackTime? ack = none
  start : noted.start = known.start
  ackTime? : ∀ number, noted.ackTime? number = if number = ack then some time else known.ackTime? number

theorem addsFlow_append {table : Table} {key : Key} (new : key ∉ table.keys) (time : String) :
    AddsFlow table (table.append key (Record.opened time) new) key time :=
  ⟨new, rfl⟩

theorem exists_addsAck_recordAck {table : Table} {key : Key} {ack : UInt32}
    (known : key ∈ table.keys) (new : table.ackTime? key ack = none) (time : String) :
    ∃ record noted, AddsAck table (table.recordAck key ack time) key ack time record noted := by
  obtain ⟨front, record, back, split, modified⟩ := exists_flows_modify known
  have inside : (key, record) ∈ table.flows := by
    rw [split]
    exact List.mem_append_right front List.mem_cons_self
  have absent : record.ackTime? ack = none := by
    rwa [Table.ackTime?, get?_of_mem inside, Option.bind_some] at new
  refine ⟨record, record.recordAck ack time, ⟨front, back, split, modified _⟩, absent, rfl, ?_⟩
  intro number
  rw [Record.ackTime?_recordAck]
  by_cases same : number = ack
  · rw [same, absent, Option.none_or]
  · rw [if_neg same, if_neg same, Option.or_none]

end FlowAudit.Flow.Table

namespace FlowAudit.Trace

open FlowAudit.Flow

/-- The session knows after a line what it knew before, but for what the result of the line says. -/
structure IsMinimalStep (before : Session) (line : List Char) (after : Session)
    (result : Except LineError Outcome) : Prop where
  control : after.control = before.control
  unchanged : changesTable result = false → after.table = before.table
  opened : ∀ key, result = .ok (.flowOpened key) → Opens before.control key line ∧
    ∃ time, timeToken? line = some time ∧ before.table.AddsFlow after.table key time
  recorded : ∀ key ack, result = .ok (.ackRecorded key ack) →
    Acknowledges before.control key ack line ∧
      ∃ time, timeToken? line = some time ∧
        ∃ known noted, before.table.AddsAck after.table key ack time known noted
  lines : after.summary.lines = before.summary.lines + 1
  counts : before.summary.CountsOne after.summary
  errors : ∀ error, result = .error error → error.line = after.summary.lines
  reported : ∀ missing, result = .error (.unmatchedAck missing) →
    after.summary.unmatched = before.summary.unmatched ++ [missing]

namespace Session.Step

variable {before after : Session} {event : Event} {result : Except LineError Outcome}

theorem table_unchanged (step : Step before event after result)
    (keeps : changesTable result = false) : after.table = before.table := by
  cases step with
  | opened | recorded => cases keeps
  | ignored | malformed | control | repeatedOpening | unmatched | repeatedAck => rfl

theorem addsFlow {key : Key} (step : Step before event after (.ok (.flowOpened key))) :
    ∃ time, event = .opening key time ∧ before.table.AddsFlow after.table key time := by
  cases step with
  | opened key time new => exact ⟨time, rfl, Table.addsFlow_append new time⟩

theorem addsAck {key : Key} {ack : UInt32}
    (step : Step before event after (.ok (.ackRecorded key ack))) :
    ∃ time, event = .acknowledgement key ack time ∧
      ∃ known noted, before.table.AddsAck after.table key ack time known noted := by
  cases step with
  | recorded key ack time known new =>
    exact ⟨time, rfl, Table.exists_addsAck_recordAck known new time⟩

theorem countsOne (step : Step before event after result) :
    before.summary.CountsOne after.summary := by
  cases step with
  | ignored => exact .ignored
  | malformed => exact .malformed
  | control => exact .control
  | opened => exact .flowsOpened
  | repeatedOpening => exact .line
  | unmatched => exact .unmatched _
  | recorded => exact .acksRecorded
  | repeatedAck => exact .repeatedAcks

theorem line_of_error {error : LineError} (step : Step before event after (.error error)) :
    error.line = after.summary.lines := by
  cases step <;> rfl

theorem unmatched_of_error {missing : UnmatchedAck}
    (step : Step before event after (.error (.unmatchedAck missing))) :
    after.summary.unmatched = before.summary.unmatched ++ [missing] := by
  cases step with
  | unmatched => rfl

end Session.Step

theorem Summary.CountsOne.lines_eq {before after : Summary} (counts : before.CountsOne after) :
    after.lines = before.lines + 1 := by
  cases counts <;> rfl

/-- Ingesting a line is a minimal step, in every state of a session and for every line. -/
theorem isMinimalStep_ingest (session : Session) (line : List Char) :
    IsMinimalStep session line (session.ingest line).1 (session.ingest line).2 where
  control := (Session.step_ingest session line).control_eq
  unchanged := (Session.step_ingest session line).table_unchanged
  opened := by
    intro key result
    have step := Session.step_ingest session line
    rw [result] at step
    obtain ⟨time, event, adds⟩ := step.addsFlow
    obtain ⟨opens, token⟩ := (ofLine_eq_opening_iff _ _ _ _).mp event
    exact ⟨opens, time, token, adds⟩
  recorded := by
    intro key ack result
    have step := Session.step_ingest session line
    rw [result] at step
    obtain ⟨time, event, adds⟩ := step.addsAck
    obtain ⟨acknowledges, token⟩ := (ofLine_eq_acknowledgement_iff _ _ _ _ _).mp event
    exact ⟨acknowledges, time, token, adds⟩
  lines := (Session.step_ingest session line).countsOne.lines_eq
  counts := (Session.step_ingest session line).countsOne
  errors := by
    intro error result
    have step := Session.step_ingest session line
    rw [result] at step
    exact step.line_of_error
  reported := by
    intro missing result
    have step := Session.step_ingest session line
    rw [result] at step
    exact step.unmatched_of_error

end FlowAudit.Trace
