import FlowAudit.Proofs.Trace.Step

set_option autoImplicit false

/-!
Tables as replays of events. What a session does to its table is a fold over the events of its lines
(`table_ingestLines`). The fold keeps the first opening of each flow, and of each ack the first event
from that opening on; acks before the opening are lost (`ackTime?_replay_of_not_mem`).
-/
namespace FlowAudit.Trace

open FlowAudit.Text FlowAudit.Flow

namespace Event

/-- The time at which an event opens the flow. -/
def startOf? (key : Key) : Event → Option String
  | .opening other time => if key = other then some time else none
  | _ => none

/-- The time at which an event acknowledges that number of the flow. -/
def ackTimeOf? (key : Key) (ack : UInt32) : Event → Option String
  | .acknowledgement other number time => if key = other ∧ ack = number then some time else none
  | _ => none

/-- What an event does to a table. -/
def applyTo (event : Event) (table : Table) : Table :=
  match event with
  | .opening key time => table.openFlow key time
  | .acknowledgement key ack time => table.recordAck key ack time
  | _ => table

theorem start?_applyTo (event : Event) (table : Table) (key : Key) :
    (event.applyTo table).start? key = (table.start? key).or (event.startOf? key) := by
  cases event with
  | opening other time => exact Table.start?_openFlow table other key time
  | acknowledgement other number time =>
    exact (Table.start?_recordAck table other key number time).trans Option.or_none.symm
  | malformed cause => exact Option.or_none.symm
  | control => exact Option.or_none.symm
  | unrelated => exact Option.or_none.symm

theorem mem_keys_applyTo (event : Event) (table : Table) (key : Key) :
    key ∈ (event.applyTo table).keys ↔ key ∈ table.keys ∨ (event.startOf? key).isSome := by
  have absent := Table.start?_eq_none_iff (event.applyTo table) key
  rw [start?_applyTo, Option.or_eq_none_iff, Table.start?_eq_none_iff] at absent
  rw [← Decidable.not_iff_not, ← absent, not_or, Option.not_isSome_iff_eq_none]

theorem keys_applyTo (event : Event) (table : Table) :
    (event.applyTo table).keys = table.keys ∨
      ∃ key, key ∉ table.keys ∧ (event.startOf? key).isSome ∧
        (event.applyTo table).keys = table.keys ++ [key] := by
  cases event with
  | opening key time =>
    rw [applyTo, Table.keys_openFlow]
    by_cases known : key ∈ table.keys
    · exact Or.inl (if_pos known)
    · exact Or.inr ⟨key, known, by simp [startOf?], if_neg known⟩
  | acknowledgement key ack time => exact Or.inl (Table.keys_recordAck table key ack time)
  | malformed | control | unrelated => exact Or.inl rfl

theorem ackTime?_applyTo (event : Event) (table : Table) (key : Key) (ack : UInt32) :
    (event.applyTo table).ackTime? key ack =
      (table.ackTime? key ack).or (if key ∈ table.keys then event.ackTimeOf? key ack else none) := by
  cases event with
  | opening other time => simp [applyTo, ackTimeOf?, Table.ackTime?_openFlow]
  | acknowledgement other number time =>
    rw [applyTo, Table.ackTime?_recordAck, ackTimeOf?]
    by_cases known : key ∈ table.keys <;> simp [known]
  | malformed cause => simp [applyTo, ackTimeOf?]
  | control => simp [applyTo, ackTimeOf?]
  | unrelated => simp [applyTo, ackTimeOf?]

/-- No event both opens a flow and acknowledges one. -/
theorem ackTimeOf?_of_startOf? {event : Event} {key : Key} (opens : (event.startOf? key).isSome)
    (other : Key) (ack : UInt32) : event.ackTimeOf? other ack = none := by
  cases event with
  | acknowledgement => cases opens
  | opening | malformed | control | unrelated => rfl

end Event

/-- The table after a list of events. -/
def replay (table : Table) (events : List Event) : Table :=
  events.foldl (fun table event => event.applyTo table) table

@[simp] theorem replay_nil (table : Table) : replay table [] = table := rfl

@[simp] theorem replay_cons (table : Table) (event : Event) (events : List Event) :
    replay table (event :: events) = replay (event.applyTo table) events := rfl

theorem replay_append (table : Table) (first second : List Event) :
    replay table (first ++ second) = replay (replay table first) second :=
  List.foldl_append

theorem start?_replay (table : Table) (events : List Event) (key : Key) :
    (replay table events).start? key =
      (table.start? key).or (events.findSome? (Event.startOf? key)) := by
  induction events generalizing table with
  | nil => simp
  | cons event rest ih =>
    rw [replay_cons, ih, Event.start?_applyTo, Option.or_assoc, List.findSome?_cons]
    cases event.startOf? key <;> simp

theorem mem_keys_replay (table : Table) (events : List Event) (key : Key) :
    key ∈ (replay table events).keys ↔
      key ∈ table.keys ∨ ∃ event ∈ events, (event.startOf? key).isSome := by
  induction events generalizing table with
  | nil => simp
  | cons event rest ih =>
    rw [replay_cons, ih, Event.mem_keys_applyTo, or_assoc]
    simp

/-- A flow that is open notes each ack at its first event. -/
theorem ackTime?_replay_of_mem {table : Table} {key : Key} (known : key ∈ table.keys)
    (events : List Event) (ack : UInt32) :
    (replay table events).ackTime? key ack =
      (table.ackTime? key ack).or (events.findSome? (Event.ackTimeOf? key ack)) := by
  induction events generalizing table with
  | nil => simp
  | cons event rest ih =>
    have still : key ∈ (event.applyTo table).keys :=
      (Event.mem_keys_applyTo event table key).mpr (Or.inl known)
    rw [replay_cons, ih still, Event.ackTime?_applyTo, if_pos known, Option.or_assoc,
      List.findSome?_cons]
    cases event.ackTimeOf? key ack <;> simp

/-- The events from the opening of a flow on. -/
def fromOpening (key : Key) (events : List Event) : List Event :=
  events.dropWhile fun event => (event.startOf? key).isNone

/-- A flow that is not open yet takes no ack before its opening. -/
theorem ackTime?_replay_of_not_mem {table : Table} {key : Key} (new : key ∉ table.keys)
    (events : List Event) (ack : UInt32) :
    (replay table events).ackTime? key ack =
      (fromOpening key events).findSome? (Event.ackTimeOf? key ack) := by
  induction events generalizing table with
  | nil => simp [fromOpening, Table.ackTime?_of_not_mem new]
  | cons event rest ih =>
    rw [replay_cons, fromOpening, List.dropWhile_cons]
    have nothing : (event.applyTo table).ackTime? key ack = none := by
      rw [Event.ackTime?_applyTo, Table.ackTime?_of_not_mem new, if_neg new, Option.or_none]
    by_cases opens : (event.startOf? key).isSome
    · have known := (Event.mem_keys_applyTo event table key).mpr (Or.inr opens)
      rw [ackTime?_replay_of_mem known, nothing, Option.none_or,
        if_neg (by simpa using Option.isSome_iff_ne_none.mp opens),
        List.findSome?_cons, Event.ackTimeOf?_of_startOf? opens]
    · have closed : event.startOf? key = none := Option.not_isSome_iff_eq_none.mp opens
      have still : key ∉ (event.applyTo table).keys := by
        rw [Event.mem_keys_applyTo]
        exact not_or.mpr ⟨new, opens⟩
      rw [ih still, closed, if_pos Option.isNone_none, fromOpening]

/-! Sessions -/

namespace Session

variable {before after : Session} {event : Event} {result : Except LineError Outcome}

theorem Step.control_eq (step : Step before event after result) : after.control = before.control := by
  cases step <;> rfl

theorem Step.table_eq (step : Step before event after result) :
    after.table = event.applyTo before.table := by
  cases step with
  | ignored | malformed | control => rfl
  | opened key time new => exact (Table.openFlow_of_not_mem new time).symm
  | repeatedOpening key time known => exact (Table.openFlow_of_mem known time).symm
  | unmatched key ack time absent => exact (Table.recordAck_of_not_mem absent ack time).symm
  | recorded => rfl
  | repeatedAck key ack time known => exact (Table.recordAck_of_known known time).symm

theorem control_ingest (session : Session) (line : List Char) :
    (session.ingest line).1.control = session.control :=
  (step_ingest session line).control_eq

theorem table_ingest (session : Session) (line : List Char) :
    (session.ingest line).1.table = (Event.ofLine session.control line).applyTo session.table :=
  (step_ingest session line).table_eq

theorem ingestLines_append (session : Session) (first second : List (List Char)) :
    session.ingestLines (first ++ second) = (session.ingestLines first).ingestLines second :=
  List.foldl_append

theorem ingestLines_cons (session : Session) (line : List Char) (rest : List (List Char)) :
    session.ingestLines (line :: rest) = (session.ingest line).1.ingestLines rest := rfl

theorem control_ingestLines (session : Session) (lines : List (List Char)) :
    (session.ingestLines lines).control = session.control := by
  induction lines generalizing session with
  | nil => rfl
  | cons line rest ih => rw [ingestLines_cons, ih, control_ingest]

theorem table_ingestLines (session : Session) (lines : List (List Char)) :
    (session.ingestLines lines).table =
      replay session.table (lines.map (Event.ofLine session.control)) := by
  induction lines generalizing session with
  | nil => rfl
  | cons line rest ih =>
    rw [ingestLines_cons, ih, table_ingest, control_ingest, List.map_cons, replay_cons]

end Session

/-- The events of a trace. -/
def traceEvents (control : PortRange) (lines : List (List Char)) : List Event :=
  lines.map (Event.ofLine control)

theorem traceEvents_append (control : PortRange) (first second : List (List Char)) :
    traceEvents control (first ++ second) = traceEvents control first ++ traceEvents control second :=
  List.map_append

theorem traceEvents_cons (control : PortRange) (line : List Char) (rest : List (List Char)) :
    traceEvents control (line :: rest) = Event.ofLine control line :: traceEvents control rest := rfl

theorem table_reconstruct (control : PortRange) (lines : List (List Char)) :
    (reconstruct control lines).table = replay Table.empty (traceEvents control lines) :=
  Session.table_ingestLines _ lines

theorem reconstruct_append (control : PortRange) (first second : List (List Char)) :
    reconstruct control (first ++ second) = (reconstruct control first).ingestLines second :=
  Session.ingestLines_append _ first second

theorem reconstruct_concat (control : PortRange) (lines : List (List Char)) (line : List Char) :
    reconstruct control (lines ++ [line]) = ((reconstruct control lines).ingest line).1 :=
  reconstruct_append control lines [line]

theorem control_reconstruct (control : PortRange) (lines : List (List Char)) :
    (reconstruct control lines).control = control :=
  Session.control_ingestLines _ lines

end FlowAudit.Trace
