import FlowAudit.Proofs.Flow.Merge
import FlowAudit.Proofs.Trace.Replay

set_option autoImplicit false

/-!
Growing traces. Whatever a line says, the table only grows, and so does a reconstruction as the trace goes
on. A longer capture therefore says all that a shorter one said, and merging the two gives the longer one
(`merge_of_prefix`).
-/
namespace FlowAudit.Trace

open FlowAudit.Flow

theorem Event.extends_applyTo (event : Event) (table : Table) :
    table.Extends (event.applyTo table) := by
  cases event with
  | opening key time => exact table.extends_openFlow key time
  | acknowledgement key ack time => exact table.extends_recordAck key ack time
  | malformed | control | unrelated => exact Table.Extends.refl table

theorem extends_replay (table : Table) (events : List Event) : table.Extends (replay table events) := by
  induction events generalizing table with
  | nil => exact Table.Extends.refl table
  | cons event rest ih => exact (event.extends_applyTo table).trans (ih (event.applyTo table))

/-- Each line leaves what the lines before it have said. -/
theorem extends_reconstruct_append (control : PortRange) (early later : List (List Char)) :
    (reconstruct control early).table.Extends (reconstruct control (early ++ later)).table := by
  rw [table_reconstruct control (early ++ later), traceEvents_append, replay_append, ← table_reconstruct]
  exact extends_replay _ (traceEvents control later)

/-- A capture that was broken off adds nothing to the whole one, merged before it or after it; nor does
it where it has been merged into another table first. -/
theorem merge_of_prefix (control : PortRange) {early lines : List (List Char)}
    (begins : early <+: lines) :
    (reconstruct control early).table.merge (reconstruct control lines).table =
        (reconstruct control lines).table ∧
      (reconstruct control lines).table.merge (reconstruct control early).table =
        (reconstruct control lines).table ∧
      ∀ table : Table,
        (table.merge (reconstruct control early).table).merge (reconstruct control lines).table =
          table.merge (reconstruct control lines).table := by
  obtain ⟨later, rfl⟩ := begins
  have growth := extends_reconstruct_append control early later
  refine ⟨growth.merge_grown, growth.grown_merge, ?_⟩
  intro table
  rw [Table.merge_assoc, growth.merge_grown]

/-- The capture is broken off before an ack comes again and another flow is opened. -/
theorem merge_of_broken_capture :
    let opening := "- 1.0 ns3::TcpHeader (5 > 6 [SYN] Win=9".toList
    let ack := "r 2.0 ns3::TcpHeader (6 > 5 [ACK] Ack=7 Win=9".toList
    let again := "r 3.0 ns3::TcpHeader (6 > 5 [ACK] Ack=7 Win=9".toList
    let other := "- 4.0 ns3::TcpHeader (8 > 6 [SYN] Win=9".toList
    let early := (reconstruct .control [opening, ack]).table
    let whole := (reconstruct .control [opening, ack, again, other]).table
    [opening, ack] <+: [opening, ack, again, other] ∧ early.merge whole = whole ∧
      whole.merge early = whole ∧ whole.keys = [⟨5, 6⟩, ⟨8, 6⟩] ∧
      whole.ackTime? ⟨5, 6⟩ 7 = some "2.0" := by
  intro opening ack again other early whole
  have begins : [opening, ack] <+: [opening, ack, again, other] := ⟨[again, other], rfl⟩
  obtain ⟨before, after, _⟩ := merge_of_prefix .control begins
  exact ⟨begins, before, after, by decide +kernel, by decide +kernel⟩

end FlowAudit.Trace
