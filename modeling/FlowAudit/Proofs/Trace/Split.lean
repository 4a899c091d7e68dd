import FlowAudit.Proofs.Trace.Account
import Mathlib.Data.List.TakeWhile

set_option autoImplicit false

/-!
Traces in two parts. Reconstructing the parts on their own and merging the tables finds the flows of the
whole trace, in its order and with its starts. An ack time can differ only for a flow of the first part
whose ack the second part lists as unmatched, because it came before the flow was opened again
(`reconstruct_append_eq_merge`).
-/
namespace FlowAudit.Trace

open FlowAudit.Text FlowAudit.Flow

theorem keys_replay (table : Table) (events : List Event) :
    (replay table events).keys =
      table.keys ++ (replay Table.empty events).keys.filter fun key => key ∉ table.keys := by
  induction events using List.reverseRecOn with
  | nil => simp
  | append_singleton events event ih =>
    simp only [replay_append, replay_cons, replay_nil]
    cases event with
    | opening key time =>
      simp only [Event.applyTo, Table.keys_openFlow]
      by_cases known : key ∈ table.keys
      · have inside : key ∈ (replay table events).keys := by simp [ih, known]
        rw [if_pos inside, ih]
        split
        · rfl
        · simp [known]
      · have same : key ∈ (replay table events).keys ↔ key ∈ (replay Table.empty events).keys := by
          simp [ih, known]
        by_cases inside : key ∈ (replay Table.empty events).keys
        · rw [if_pos (same.mpr inside), if_pos inside, ih]
        · rw [if_neg (mt same.mp inside), if_neg inside, ih]
          simp [known]
    | acknowledgement key ack time => simpa only [Event.applyTo, Table.keys_recordAck] using ih
    | malformed | control | unrelated => exact ih

/-- The opening of a flow parts a trace into lines that do not open it and the lines that it reads. -/
theorem exists_split_fromOpening (control : PortRange) (key : Key) (lines : List (List Char)) :
    ∃ early rest, lines = early ++ rest ∧ (∀ line ∈ early, ¬Opens control key line) ∧
      fromOpening key (traceEvents control lines) = traceEvents control rest := by
  let closed := fun line => ((Event.ofLine control line).startOf? key).isNone
  refine ⟨lines.takeWhile closed, lines.dropWhile closed,
    List.takeWhile_append_dropWhile.symm, ?_, ?_⟩
  · intro line early opens
    have silent : closed line = true := List.mem_takeWhile_imp early
    have opening := (isSome_startOf?_iff control key line).mpr opens
    change ((Event.ofLine control line).startOf? key).isNone = true at silent
    rw [← Option.not_isSome, opening] at silent
    cases silent
  · rw [fromOpening, traceEvents, List.dropWhile_map]
    rfl

/-- An ack that comes before the opening of its flow is on the list of unmatched acks. -/
theorem exists_isUnmatched_of_early {control : PortRange} {early rest : List (List Char)} {key : Key}
    {ack : UInt32} {line : List Char} (closed : ∀ other ∈ early, ¬Opens control key other)
    (inside : line ∈ early) (acknowledges : Acknowledges control key ack line) :
    ∃ missing, IsUnmatched control (early ++ rest) missing ∧ missing.key = key ∧
      missing.ack = ack := by
  obtain ⟨before, after, rfl⟩ := List.append_of_mem inside
  refine ⟨⟨before.length + 1, key, ack⟩, ⟨before, line, after ++ rest, by simp, rfl, acknowledges, ?_⟩,
    rfl, rfl⟩
  intro other earlier
  exact closed other (List.mem_append_left _ earlier)

/-- An ack that is nowhere unmatched is found without waiting for the opening of its flow. -/
theorem findSome?_ackTimeOf?_of_matched {control : PortRange} {lines : List (List Char)} {key : Key}
    {ack : UInt32} (matched : ∀ missing, IsUnmatched control lines missing →
      ¬(missing.key = key ∧ missing.ack = ack)) :
    (traceEvents control lines).findSome? (Event.ackTimeOf? key ack) =
      (fromOpening key (traceEvents control lines)).findSome? (Event.ackTimeOf? key ack) := by
  obtain ⟨early, rest, rfl, closed, read⟩ := exists_split_fromOpening control key lines
  have nothing : (traceEvents control early).findSome? (Event.ackTimeOf? key ack) = none := by
    rw [List.findSome?_eq_none_iff]
    intro event inside
    obtain ⟨line, early, rfl⟩ := List.mem_map.mp inside
    cases found : (Event.ofLine control line).ackTimeOf? key ack with
    | none => rfl
    | some time =>
      have acknowledges := ((ackTimeOf?_ofLine_eq_some_iff control key ack line time).mp found).1
      obtain ⟨missing, unmatched, same⟩ := exists_isUnmatched_of_early closed early acknowledges
      exact absurd same (matched missing unmatched)
  rw [read, traceEvents_append, List.findSome?_append, nothing, Option.none_or]

/-- Two tables have the same flows, in the same order and with the same starts, and the same ack
times but for those acks of known flows that are listed as unmatched. -/
structure AgreesExcept (known : Table) (unmatched : List UnmatchedAck) (whole merged : Table) :
    Prop where
  keys : whole.keys = merged.keys
  starts : ∀ key, whole.start? key = merged.start? key
  acks : ∀ key ack, whole.ackTime? key ack = merged.ackTime? key ack ∨
    key ∈ known.keys ∧ ∃ missing ∈ unmatched, missing.key = key ∧ missing.ack = ack

/-- Without an unmatched ack of a known flow the tables are equal. -/
theorem AgreesExcept.eq_of_foreign {known whole merged : Table} {unmatched : List UnmatchedAck}
    (agrees : AgreesExcept known unmatched whole merged)
    (foreign : ∀ missing ∈ unmatched, missing.key ∉ known.keys) : merged = whole := by
  apply Table.ext_views agrees.keys.symm fun key => (agrees.starts key).symm
  intro key ack
  rcases agrees.acks key ack with same | ⟨inside, missing, listed, rfl, _⟩
  · exact same.symm
  · exact absurd inside (foreign missing listed)

section Parts

variable (control : PortRange) (first second : List (List Char))

theorem table_reconstruct_append :
    (reconstruct control (first ++ second)).table =
      replay (reconstruct control first).table (traceEvents control second) := by
  rw [table_reconstruct, traceEvents_append, replay_append, ← table_reconstruct]

theorem keys_reconstruct_append :
    (reconstruct control (first ++ second)).table.keys =
      ((reconstruct control first).table.merge (reconstruct control second).table).keys := by
  rw [table_reconstruct_append, keys_replay, ← table_reconstruct, Table.keys_merge]

theorem start?_reconstruct_append (key : Key) :
    (reconstruct control (first ++ second)).table.start? key =
      ((reconstruct control first).table.merge (reconstruct control second).table).start? key := by
  rw [table_reconstruct_append, start?_replay, Table.start?_merge, table_reconstruct control second,
    start?_replay, Table.start?_empty, Option.none_or]

theorem ackTime?_reconstruct_of_matched {key : Key} {ack : UInt32}
    (matched : key ∈ (reconstruct control first).table.keys →
      ∀ missing, IsUnmatched control second missing → ¬(missing.key = key ∧ missing.ack = ack)) :
    (reconstruct control (first ++ second)).table.ackTime? key ack =
      ((reconstruct control first).table.merge
        (reconstruct control second).table).ackTime? key ack := by
  have alone : (reconstruct control second).table.ackTime? key ack =
      (fromOpening key (traceEvents control second)).findSome? (Event.ackTimeOf? key ack) := by
    rw [table_reconstruct]
    exact ackTime?_replay_of_not_mem (by simp) _ ack
  rw [table_reconstruct_append, Table.ackTime?_merge, alone]
  by_cases known : key ∈ (reconstruct control first).table.keys
  · rw [ackTime?_replay_of_mem known, findSome?_ackTimeOf?_of_matched (matched known)]
  · rw [ackTime?_replay_of_not_mem known, Table.ackTime?_of_not_mem known, Option.none_or]

theorem agreesExcept_reconstruct_append :
    AgreesExcept (reconstruct control first).table (reconstruct control second).summary.unmatched
      (reconstruct control (first ++ second)).table
      ((reconstruct control first).table.merge (reconstruct control second).table) where
  keys := keys_reconstruct_append control first second
  starts := start?_reconstruct_append control first second
  acks := by
    intro key ack
    by_cases exception : key ∈ (reconstruct control first).table.keys ∧
        ∃ missing ∈ (reconstruct control second).summary.unmatched,
          missing.key = key ∧ missing.ack = ack
    · exact Or.inr exception
    · refine Or.inl (ackTime?_reconstruct_of_matched control first second ?_)
      intro open' missing listed same
      have inside := (mem_unmatched_reconstruct_iff control second missing).mpr listed
      exact exception ⟨open', missing, inside, same⟩

end Parts

/-- Splitting a trace loses nothing that the second part does not report as unmatched. -/
theorem reconstruct_append_eq_merge (control : PortRange) (first second : List (List Char)) :
    AgreesExcept (reconstruct control first).table (reconstruct control second).summary.unmatched
      (reconstruct control (first ++ second)).table
      ((reconstruct control first).table.merge (reconstruct control second).table) ∧
    ((∀ missing ∈ (reconstruct control second).summary.unmatched,
        missing.key ∉ (reconstruct control first).table.keys) →
      (reconstruct control first).table.merge (reconstruct control second).table =
        (reconstruct control (first ++ second)).table) := by
  have agrees := agreesExcept_reconstruct_append control first second
  exact ⟨agrees, agrees.eq_of_foreign⟩

/-- An unmatched ack of a known flow can come out with a later time: here the second part opens the
flow again between its two acks. -/
example :
    let opening := "- 1.0 ns3::TcpHeader (5 > 6 [SYN] Win=9".toList
    let again := "- 3.0 ns3::TcpHeader (5 > 6 [SYN] Win=9".toList
    let early := "r 2.0 ns3::TcpHeader (6 > 5 [ACK] Ack=7 Win=9".toList
    let late := "r 4.0 ns3::TcpHeader (6 > 5 [ACK] Ack=7 Win=9".toList
    let first := (reconstruct .control [opening]).table
    let second := (reconstruct .control [early, again, late]).table
    (reconstruct .control [opening, early, again, late]).table.ackTime? ⟨5, 6⟩ 7 = some "2.0" ∧
      (first.merge second).ackTime? ⟨5, 6⟩ 7 = some "4.0" := by
  decide +kernel

end FlowAudit.Trace
