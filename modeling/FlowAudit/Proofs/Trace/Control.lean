import FlowAudit.Proofs.Flow.Restriction
import FlowAudit.Proofs.Trace.Account

set_option autoImplicit false

/-!
Control ranges as masks. A range sets lines apart by their ports before anything else is looked at, and
the key of a flow has the ports of its lines; so the reconstruction under a range is the part of the
reconstruction under an empty range whose flows keep clear of the range. `Hides` relates the two runs, and
a line keeps it (`Hides.apply`).
-/
namespace FlowAudit.Trace

open FlowAudit.Text FlowAudit.Flow

/-- Whether a flow has no port in the range. -/
def PortRange.spares (range : PortRange) (key : Key) : Bool :=
  !(range.contains key.first || range.contains key.second)

theorem PortRange.spares_iff (range : PortRange) (key : Key) :
    range.spares key = true ↔
      range.contains key.first = false ∧ range.contains key.second = false := by
  rw [spares, Bool.not_eq_true', Bool.or_eq_false_iff]

/-- The flow that an event concerns. -/
def Event.key? : Event → Option Key
  | .opening key _ => some key
  | .acknowledgement key _ _ => some key
  | .malformed _ => none
  | .control => none
  | .unrelated => none

/-- What becomes of an event when a range is set up. -/
inductive Event.Masked (range : PortRange) (event : Event) : Event → Prop
  | shown (clear : ∀ key ∈ event.key?, range.spares key = true) : Masked range event event
  | hidden (hit : ∀ key ∈ event.key?, range.spares key = false) : Masked range event .control

/-- In either direction the flow of a line has the ports of the line. -/
theorem spares_of_key?_event {other range : PortRange} {decoded : Line} {key : Key}
    (concerns : key ∈ (decoded.event other).key?) :
    range.spares key = !(range.contains decoded.source || range.contains decoded.destination) := by
  unfold Line.event at concerns
  split at concerns
  · cases concerns
  · split at concerns
    · split at concerns
      · obtain rfl : decoded.sendKey = key := Option.some.inj concerns
        rfl
      · cases concerns
    · obtain rfl : decoded.receiveKey = key := Option.some.inj concerns
      exact congrArg Bool.not (Bool.or_comm _ _)
    · cases concerns

theorem event_of_clear {range : PortRange} {decoded : Line}
    (clear : (range.contains decoded.source || range.contains decoded.destination) = false)
    {free : PortRange} (empty : free.isEmpty = true) :
    decoded.event range = decoded.event free := by
  simp only [Line.event, clear, PortRange.contains_eq_false_of_isEmpty empty, Bool.or_false]

theorem masked_ofLine {free : PortRange} (empty : free.isEmpty = true) (range : PortRange)
    (line : List Char) :
    Event.Masked range (Event.ofLine free line) (Event.ofLine range line) := by
  unfold Event.ofLine
  split
  · exact .shown (by simp [Event.key?])
  · exact .shown (by simp [Event.key?])
  · rename_i decoded _
    cases ports : range.contains decoded.source || range.contains decoded.destination with
    | true =>
      rw [event_of_control ports]
      refine .hidden ?_
      intro key concerns
      rw [spares_of_key?_event concerns, ports]
      rfl
    | false =>
      rw [event_of_clear ports empty]
      refine .shown ?_
      intro key concerns
      rw [spares_of_key?_event concerns, ports]
      rfl

/-- The masked session knows the flows of the whole one that keep clear of the range, and lists those of
its unmatched acks that do. -/
structure Hides (range : PortRange) (whole masked : Session) : Prop where
  table : masked.table = whole.table.restrict range.spares
  lines : masked.summary.lines = whole.summary.lines
  unmatched : masked.summary.unmatched =
    whole.summary.unmatched.filter fun missing => range.spares missing.key

theorem Event.Masked.applyTo {range : PortRange} {event other : Event}
    (masked : Event.Masked range event other) (table : Table) :
    other.applyTo (table.restrict range.spares) =
      (event.applyTo table).restrict range.spares := by
  cases masked with
  | shown clear =>
    cases event with
    | opening key time =>
      exact (Table.restrict_openFlow_of_kept (clear key rfl) table time).symm
    | acknowledgement key ack time =>
      exact (Table.restrict_recordAck_of_kept (clear key rfl) table ack time).symm
    | malformed | control | unrelated => rfl
  | hidden hit =>
    cases event with
    | opening key time =>
      exact (Table.restrict_openFlow_of_not_kept (hit key rfl) table time).symm
    | acknowledgement key ack time =>
      exact (Table.restrict_recordAck_of_not_kept (hit key rfl) table ack time).symm
    | malformed | control | unrelated => rfl

namespace Hides

variable {range : PortRange} {whole masked whole' masked' : Session} {event other : Event}
  {result result' : Except LineError Outcome}

theorem missing_eq (hides : Hides range whole masked) (mask : Event.Masked range event other) :
    masked.missing other = (whole.missing event).filter fun missing => range.spares missing.key := by
  cases mask with
  | shown clear =>
    cases event with
    | acknowledgement key ack time =>
      have outside := clear key rfl
      simp only [Session.missing, hides.table, Table.mem_keys_restrict, hides.lines, outside,
        and_true]
      split <;> simp [outside]
    | opening | malformed | control | unrelated => rfl
  | hidden hit =>
    cases event with
    | acknowledgement key ack time =>
      have inside := hit key rfl
      simp only [Session.missing]
      split <;> simp [inside]
    | opening | malformed | control | unrelated => rfl

/-- Both sessions take a line, each with the event that its range gives it. -/
theorem apply (hides : Hides range whole masked) (mask : Event.Masked range event other)
    (step : Session.Step whole event whole' result)
    (step' : Session.Step masked other masked' result') : Hides range whole' masked' where
  table := by rw [step'.table_eq, step.table_eq, hides.table, mask.applyTo]
  lines := by rw [step'.lines_eq, step.lines_eq, hides.lines]
  unmatched := by
    rw [step'.unmatched_eq, step.unmatched_eq, hides.unmatched, hides.missing_eq mask,
      List.filter_append]

end Hides

theorem hides_reconstruct {free : PortRange} (empty : free.isEmpty = true) (range : PortRange)
    (lines : List (List Char)) : Hides range (reconstruct free lines) (reconstruct range lines) := by
  -- From the end, so that both runs have the lines before in common when they take the last one.
  induction lines using List.reverseRecOn with
  | nil => exact ⟨rfl, rfl, rfl⟩
  | append_singleton lines line ih =>
    exact ih.apply (masked_ofLine empty range line) (step_reconstruct free lines line)
      (step_reconstruct range lines line)

theorem Hides.spares_of_mem_keys {range : PortRange} {whole masked : Session}
    (hides : Hides range whole masked) {key : Key} (known : key ∈ masked.table.keys) :
    range.spares key = true := by
  rw [hides.table, Table.mem_keys_restrict] at known
  exact known.2

theorem Hides.spares_of_mem_unmatched {range : PortRange} {whole masked : Session}
    (hides : Hides range whole masked) {missing : UnmatchedAck}
    (listed : missing ∈ masked.summary.unmatched) : range.spares missing.key = true := by
  rw [hides.unmatched, List.mem_filter] at listed
  exact listed.2

/-- A range takes out the flows that have a port in it, with their unmatched acks, and changes nothing
else. -/
theorem reconstruct_excludes_control (range : PortRange) (lines : List (List Char)) :
    (∀ free : PortRange, free.isEmpty = true →
      (reconstruct range lines).table.flows =
          (reconstruct free lines).table.flows.filter (fun flow => range.spares flow.1) ∧
        (reconstruct range lines).summary.unmatched =
          (reconstruct free lines).summary.unmatched.filter
            (fun missing => range.spares missing.key)) ∧
    (∀ other : PortRange,
      (reconstruct range lines).summary.malformed = (reconstruct other lines).summary.malformed) ∧
    (∀ key ∈ (reconstruct range lines).table.keys,
      range.contains key.first = false ∧ range.contains key.second = false) ∧
    (∀ missing ∈ (reconstruct range lines).summary.unmatched,
      range.contains missing.key.first = false ∧ range.contains missing.key.second = false) := by
  have downward : (⟨1, 0⟩ : PortRange).isEmpty = true := rfl
  have hides := hides_reconstruct downward range lines
  refine ⟨?_, ?_, ?_, ?_⟩
  · intro free empty
    have masked := hides_reconstruct empty range lines
    exact ⟨congrArg Table.flows masked.table, masked.unmatched⟩
  · intro other
    rw [malformed_reconstruct, malformed_reconstruct]
  · intro key known
    exact (range.spares_iff key).mp (hides.spares_of_mem_keys known)
  · intro missing listed
    exact (range.spares_iff missing.key).mp (hides.spares_of_mem_unmatched listed)

/-- A flow that is opened from a control port, one that a control port acknowledges, and one that keeps
clear of them. -/
theorem reconstruct_excludes_both_directions :
    let lines := ["- 1.0 ns3::TcpHeader (20000 > 80 [SYN] Win=9".toList,
      "- 1.1 ns3::TcpHeader (80 > 21000 [SYN] Win=9".toList,
      "- 1.2 ns3::TcpHeader (5 > 6 [SYN] Win=9".toList,
      "r 1.3 ns3::TcpHeader (21000 > 80 [ACK] Ack=7 Win=9".toList,
      "r 1.4 ns3::TcpHeader (6 > 5 [ACK] Ack=7 Win=9".toList,
      "r 1.5 ns3::TcpHeader (20500 > 81 [ACK] Ack=7 Win=9".toList]
    let free : PortRange := ⟨1, 0⟩
    free.isEmpty = true ∧
      (reconstruct free lines).table.keys = [⟨20000, 80⟩, ⟨80, 21000⟩, ⟨5, 6⟩] ∧
      (reconstruct .control lines).table.keys = [⟨5, 6⟩] ∧
      (reconstruct .control lines).table.flows =
        (reconstruct free lines).table.flows.filter (fun flow => PortRange.control.spares flow.1) ∧
      (reconstruct .control lines).summary.unmatched =
        (reconstruct free lines).summary.unmatched.filter
          (fun missing => PortRange.control.spares missing.key) := by
  intro lines free
  exact ⟨rfl, by decide +kernel, by decide +kernel,
    (reconstruct_excludes_control .control lines).1 free rfl⟩

end FlowAudit.Trace
