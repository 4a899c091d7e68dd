import FlowAudit.Proofs.Flow.Observation
import FlowAudit.Proofs.Flow.Table

set_option autoImplicit false

/-!
The interchange form keeps everything. The line of a record observes its acks in their order, each once,
so that reading the line gives the record, and reading the lines of a table the table.
-/
namespace FlowAudit.Flow

open FlowAudit.Text FlowAudit.Json

namespace Timeline

theorem entries_ofPairs {pairs : List (UInt32 × String)}
    (sorted : pairs.Pairwise fun earlier later => earlier.1 < later.1) :
    (ofPairs pairs).entries = pairs := by
  induction pairs with
  | nil => rfl
  | cons head rest ih =>
    have parts := List.pairwise_cons.mp sorted
    have step : (ofPairs (head :: rest)).entries =
        insertEntry head.1 head.2 (ofPairs rest).entries := rfl
    rw [step, ih parts.2]
    cases rest with
    | nil => rfl
    | cons next rest =>
      have before : head.1 < next.1 := parts.1 next List.mem_cons_self
      rw [insertEntry, if_pos before]

theorem ofPairs_entries (timeline : Timeline) : ofPairs timeline.entries = timeline :=
  ext_entries (entries_ofPairs timeline.ascending)

end Timeline

section Lines

variable (key : Key) (record : Record)

theorem observes_recordLine : Observes (recordLine key record) key record.start record.acks.entries :=
  observes_observationLine key record.start record.acks.entries

/-- Reading undoes writing, for every record. -/
theorem readRecordLine_recordLine : readRecordLine (recordLine key record) = .ok (key, record) := by
  rw [readRecordLine_of_observes (observes_recordLine key record), Timeline.ofPairs_entries]

end Lines

namespace Table

def rows (table : Table) : List (List Char) :=
  table.flows.map fun flow => recordLine flow.1 flow.2

theorem interchange_eq (table : Table) : table.interchange = table.rows.flatMap (· ++ ['\n']) := by
  rw [interchange, rows, List.flatMap_map]

theorem lines_interchange (table : Table) : lines table.interchange = table.rows := by
  rw [interchange_eq]
  apply lines_observationLines
  intro row inside
  obtain ⟨flow, _, rfl⟩ := List.mem_map.mp inside
  exact ⟨flow.1, flow.2.start, flow.2.acks.entries, rfl⟩

theorem count_interchange (table : Table) : table.interchange.count '\n' = table.size := by
  rw [interchange, size]
  induction table.flows with
  | nil => rfl
  | cons flow rest ih =>
    have none : (recordLine flow.1 flow.2).count '\n' = 0 :=
      List.count_eq_zero.mpr (lineFeed_not_mem_observationLine flow.1 flow.2.start flow.2.acks.entries)
    have one : ['\n'].count '\n' = 1 := rfl
    rw [List.flatMap_cons, List.count_append, List.count_append, none, one, ih, List.length_cons]
    omega

/-- Reading the lines of flows adds the flows one after the other. -/
theorem readLines_rows (flows : List (Key × Record)) (table : Table) (number : Nat) :
    readLines table number (flows.map fun flow => recordLine flow.1 flow.2) =
      .ok (flows.foldl (fun merged flow => merged.absorb flow.1 flow.2) table) := by
  induction flows generalizing table number with
  | nil => rfl
  | cons flow rest ih =>
    rw [List.map_cons, readLines_of_observes (observes_recordLine flow.1 flow.2),
      Timeline.ofPairs_entries]
    exact ih (table.absorb flow.1 flow.2) (number + 1)

theorem ofInterchange_interchange (table : Table) : ofInterchange table.interchange = .ok table := by
  rw [ofInterchange, lines_interchange, rows, readLines_rows]
  exact congrArg Except.ok (empty_merge table)

end Table

/-- Tables and records survive the interchange form, and two lines say the same exactly when the
records that they give are written alike. -/
theorem interchange_faithful :
    (∀ table : Table,
      lines table.interchange = table.flows.map (fun flow => recordLine flow.1 flow.2) ∧
      table.interchange = (lines table.interchange).flatMap (· ++ ['\n']) ∧
      table.interchange.count '\n' = table.size ∧
      Table.ofInterchange table.interchange = .ok table) ∧
    (∀ key record, readRecordLine (recordLine key record) = .ok (key, record)) ∧
    (∀ line key record, readRecordLine line = .ok (key, record) →
      readRecordLine (recordLine key record) = readRecordLine line) ∧
    (∀ line other flow flow', readRecordLine line = .ok flow → readRecordLine other = .ok flow' →
      (flow = flow' ↔ recordLine flow.1 flow.2 = recordLine flow'.1 flow'.2)) := by
  refine ⟨?_, readRecordLine_recordLine, ?_, ?_⟩
  · intro table
    refine ⟨table.lines_interchange, ?_, table.count_interchange, table.ofInterchange_interchange⟩
    rw [table.lines_interchange]
    exact table.interchange_eq
  · intro line key record accepted
    rw [readRecordLine_recordLine, accepted]
  · intro line other flow flow' _ _
    constructor
    · rintro rfl
      rfl
    · intro same
      have read : readRecordLine (recordLine flow.1 flow.2) = .ok flow :=
        readRecordLine_recordLine flow.1 flow.2
      rw [same, readRecordLine_recordLine] at read
      exact (Except.ok.inj read).symm

end FlowAudit.Flow
