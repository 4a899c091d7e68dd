import FlowAudit.Proofs.Trace.Reading

set_option autoImplicit false

/-!
The account of a session. Every line is counted under one kind, the counts agree with the table, and
the list of unmatched acks is the one that the trace tells (`isAccount_reconstruct`). What a step adds
is said once for each count, by cases on the steps, and then added up over a run.
-/
namespace FlowAudit.Flow.Table

/-- How many acks the timelines of a table hold together. -/
def ackCount (table : Table) : Nat :=
  (table.flows.flatMap fun flow => flow.2.acks.entries).length

theorem ackCount_append (table : Table) (key : Key) (start : String) (new : key ∉ table.keys) :
    (table.append key (Record.opened start) new).ackCount = table.ackCount := by
  simp [ackCount, append, Record.opened, Timeline.empty]

theorem length_flatMap_recordAck (flows : List (Key × Record)) (key : Key) (ack : UInt32)
    (time : String) (distinct : (flows.map Prod.fst).Nodup) (known : key ∈ flows.map Prod.fst)
    (new : ∀ record, flows.lookup key = some record → record.ackTime? ack = none) :
    ((flows.map fun flow => if flow.1 = key then (flow.1, flow.2.recordAck ack time) else flow).flatMap
      fun flow => flow.2.acks.entries).length =
        (flows.flatMap fun flow => flow.2.acks.entries).length + 1 := by
  induction flows with
  | nil => cases known
  | cons flow rest ih =>
    have parts := List.nodup_cons.mp distinct
    rw [List.map_cons, List.flatMap_cons, List.flatMap_cons, List.length_append, List.length_append]
    by_cases here : flow.1 = key
    · subst here
      have others : (rest.map fun other =>
          if other.1 = flow.1 then (other.1, other.2.recordAck ack time) else other) = rest := by
        refine (List.map_congr_left ?_).trans (List.map_id rest)
        intro other inside
        have differs : other.1 ≠ flow.1 := fun same => parts.1 (same ▸ List.mem_map_of_mem inside)
        exact if_neg differs
      have absent := new flow.2 (by rw [lookup_flow flow.1, if_pos rfl])
      have longer := Timeline.length_insertEntry ack time flow.2.acks.entries absent
      rw [if_pos rfl, others]
      change (Timeline.insertEntry ack time flow.2.acks.entries).length + _ = _
      omega
    · have deeper : key ∈ rest.map Prod.fst := by
        rcases List.mem_cons.mp known with same | deeper
        · exact absurd same.symm here
        · exact deeper
      have below := ih parts.2 deeper fun record found => new record (by
        rw [lookup_flow flow.1, if_neg (Ne.symm here), found])
      rw [if_neg here, below]
      omega

theorem ackCount_recordAck {table : Table} {key : Key} {ack : UInt32} (known : key ∈ table.keys)
    (new : table.ackTime? key ack = none) (time : String) :
    (table.recordAck key ack time).ackCount = table.ackCount + 1 := by
  apply length_flatMap_recordAck table.flows key ack time table.distinct known
  intro record found
  have view : table.get? key = some record := found
  rwa [ackTime?, view, Option.bind_some] at new

end FlowAudit.Flow.Table

namespace FlowAudit.Trace

open FlowAudit.Text FlowAudit.Flow

/-- What the ingestion of each line returned. -/
def Session.results (session : Session) : List (List Char) → List (Except LineError Outcome)
  | [] => []
  | line :: rest => (session.ingest line).2 :: (session.ingest line).1.results rest

def isRepeatedSyn : Except LineError Outcome → Bool
  | .ok (.repeatedSyn _) => true
  | _ => false

/-- The lines that a summary counts under their kinds. -/
def Summary.counted (summary : Summary) : Nat :=
  summary.ignored + summary.control + summary.malformed + summary.flowsOpened +
    summary.acksRecorded + summary.repeatedAcks + summary.unmatched.length

def Event.isMalformed : Event → Bool
  | .malformed _ => true
  | _ => false

/-- The entry that an event adds to the unmatched acks, if it adds one. -/
def Session.missing (session : Session) : Event → List UnmatchedAck
  | .acknowledgement key ack _ =>
      if key ∈ session.table.keys then [] else [⟨session.summary.lines + 1, key, ack⟩]
  | _ => []

/-- An ack of a flow that no line before it opens; lines are numbered from one. -/
def IsUnmatched (control : PortRange) (lines : List (List Char)) (missing : UnmatchedAck) : Prop :=
  ∃ before line after, lines = before ++ line :: after ∧ missing.line = before.length + 1 ∧
    Acknowledges control missing.key missing.ack line ∧
    ∀ other ∈ before, ¬Opens control missing.key other

structure IsAccount (control : PortRange) (lines : List (List Char)) (session : Session) : Prop where
  lines_eq : session.summary.lines = lines.length
  /-- Each line is counted once; a repeated opening has no count of its own. -/
  balance : session.summary.lines =
    session.summary.counted + (Session.results { control } lines).countP isRepeatedSyn
  flowsOpened_eq : session.summary.flowsOpened = session.table.size
  acksRecorded_eq : session.summary.acksRecorded = session.table.ackCount
  malformed_eq : session.summary.malformed = lines.countP fun line => !(Line.decode line).isOk
  mem_unmatched_iff : ∀ missing, missing ∈ session.summary.unmatched ↔
    IsUnmatched control lines missing
  unmatched_ordered : session.summary.unmatched.Pairwise fun earlier later =>
    earlier.line < later.line

theorem Session.pairwise_missing (session : Session) (event : Event) :
    (session.missing event).Pairwise fun earlier later => earlier.line < later.line := by
  unfold missing
  repeat' split
  all_goals simp

/-! What a step adds -/

namespace Session.Step

variable {before after : Session} {event : Event} {result : Except LineError Outcome}

theorem lines_eq (step : Step before event after result) :
    after.summary.lines = before.summary.lines + 1 := by
  cases step <;> rfl

theorem counted_eq (step : Step before event after result) :
    after.summary.counted + [result].countP isRepeatedSyn = before.summary.counted + 1 := by
  cases step <;> simp [Summary.counted, Summary.next, isRepeatedSyn] <;> omega

theorem flowsOpened_eq (step : Step before event after result)
    (same : before.summary.flowsOpened = before.table.size) :
    after.summary.flowsOpened = after.table.size := by
  cases step with
  | opened key time new => simp [Table.size, Table.append, same]
  | recorded key ack time => simp [Table.size, Table.recordAck, Table.modify, Summary.next, same]
  | ignored | malformed | control | repeatedOpening | unmatched | repeatedAck => exact same

theorem acksRecorded_eq (step : Step before event after result)
    (same : before.summary.acksRecorded = before.table.ackCount) :
    after.summary.acksRecorded = after.table.ackCount := by
  cases step with
  | opened key time new => exact same.trans (Table.ackCount_append before.table key time new).symm
  | recorded key ack time known new =>
    rw [Table.ackCount_recordAck known new, ← same]
  | ignored | malformed | control | repeatedOpening | unmatched | repeatedAck => exact same

theorem malformed_eq (step : Step before event after result) :
    after.summary.malformed = before.summary.malformed + [event].countP Event.isMalformed := by
  cases step <;> rfl

theorem unmatched_eq (step : Step before event after result) :
    after.summary.unmatched = before.summary.unmatched ++ before.missing event := by
  cases step with
  | unmatched key ack time absent => rw [missing, if_neg absent]
  | recorded key ack time known => simp [missing, known, Summary.next]
  | repeatedAck key ack time noted =>
    have known : key ∈ before.table.keys := by
      by_cases known : key ∈ before.table.keys
      · exact known
      · rw [Table.ackTime?_of_not_mem known] at noted
        cases noted
    simp [missing, known, Summary.next]
  | ignored | malformed | control | opened | repeatedOpening => exact (List.append_nil _).symm

end Session.Step

/-! What a line adds to the account of the lines before it -/

theorem results_concat (session : Session) (lines : List (List Char)) (line : List Char) :
    session.results (lines ++ [line]) =
      session.results lines ++ [((session.ingestLines lines).ingest line).2] := by
  induction lines generalizing session with
  | nil => rfl
  | cons head rest ih =>
    rw [List.cons_append, Session.results, ih, Session.results, Session.ingestLines_cons,
      List.cons_append]

theorem isMalformed_ofLine (control : PortRange) (line : List Char) :
    (Event.ofLine control line).isMalformed = !(Line.decode line).isOk := by
  cases decodes : Line.decode line with
  | error cause => rw [(ofLine_eq_malformed_iff control line cause).mpr decodes]; rfl
  | ok found =>
    cases event : Event.ofLine control line with
    | malformed cause =>
      rw [ofLine_eq_malformed_iff, decodes] at event
      cases event
    | control | opening | acknowledgement | unrelated => rfl

/-- One more line is one more step. -/
theorem step_reconstruct (control : PortRange) (lines : List (List Char)) (line : List Char) :
    Session.Step (reconstruct control lines) (Event.ofLine control line)
      (reconstruct control (lines ++ [line])) ((reconstruct control lines).ingest line).2 := by
  have step := Session.step_ingest (reconstruct control lines) line
  rwa [control_reconstruct, ← reconstruct_concat] at step

theorem lines_reconstruct (control : PortRange) (lines : List (List Char)) :
    (reconstruct control lines).summary.lines = lines.length := by
  induction lines using List.reverseRecOn with
  | nil => rfl
  | append_singleton lines line ih =>
    rw [(step_reconstruct control lines line).lines_eq, ih, List.length_append,
      List.length_singleton]

theorem mem_missing_iff (control : PortRange) (lines : List (List Char)) (line : List Char)
    (missing : UnmatchedAck) :
    missing ∈ (reconstruct control lines).missing (Event.ofLine control line) ↔
      missing.line = lines.length + 1 ∧ Acknowledges control missing.key missing.ack line ∧
        ∀ other ∈ lines, ¬Opens control missing.key other := by
  have counted := lines_reconstruct control lines
  have absent : ∀ key, key ∉ (reconstruct control lines).table.keys ↔
      ∀ other ∈ lines, ¬Opens control key other := by
    intro key
    rw [mem_keys_reconstruct_iff]
    simp
  constructor
  · intro inside
    cases event : Event.ofLine control line with
    | acknowledgement key ack time =>
      rw [event, Session.missing] at inside
      split at inside
      · cases inside
      · rename_i new
        obtain rfl := List.mem_singleton.mp inside
        rw [ofLine_eq_acknowledgement_iff] at event
        exact ⟨congrArg (· + 1) counted, event.1, (absent key).mp new⟩
    | malformed | control | opening | unrelated =>
      rw [event] at inside
      cases inside
  · rintro ⟨number, acknowledges, closed⟩
    obtain ⟨time, token⟩ := exists_timeToken?_of_acknowledges acknowledges
    rw [(ofLine_eq_acknowledgement_iff control line missing.key missing.ack time).mpr
      ⟨acknowledges, token⟩, Session.missing, if_neg ((absent missing.key).mpr closed),
      List.mem_singleton, counted, ← number]

theorem isUnmatched_concat (control : PortRange) (lines : List (List Char)) (line : List Char)
    (missing : UnmatchedAck) :
    IsUnmatched control (lines ++ [line]) missing ↔
      IsUnmatched control lines missing ∨
        missing.line = lines.length + 1 ∧ Acknowledges control missing.key missing.ack line ∧
          ∀ other ∈ lines, ¬Opens control missing.key other := by
  constructor
  · rintro ⟨before, bringer, after, split, rest⟩
    rcases List.eq_nil_or_concat after with rfl | ⟨after, last, rfl⟩
    · obtain ⟨rfl, same⟩ := List.append_inj' split rfl
      obtain rfl := List.singleton_inj.mp same
      exact Or.inr rest
    · rw [List.concat_eq_append, ← List.cons_append, ← List.append_assoc] at split
      obtain ⟨rfl, _⟩ := List.append_inj' split rfl
      exact Or.inl ⟨before, bringer, after, rfl, rest⟩
  · rintro (⟨before, bringer, after, rfl, rest⟩ | rest)
    · exact ⟨before, bringer, after ++ [line], by simp, rest⟩
    · exact ⟨lines, line, [], rfl, rest⟩

theorem IsUnmatched.line_le {control : PortRange} {lines : List (List Char)} {missing : UnmatchedAck}
    (unmatched : IsUnmatched control lines missing) : missing.line ≤ lines.length := by
  obtain ⟨before, line, after, rfl, number, _⟩ := unmatched
  rw [number, List.length_append, List.length_cons]
  omega

/-! What a run adds up to -/

theorem balance_reconstruct (control : PortRange) (lines : List (List Char)) :
    lines.length = (reconstruct control lines).summary.counted +
      (Session.results { control } lines).countP isRepeatedSyn := by
  induction lines using List.reverseRecOn with
  | nil => rfl
  | append_singleton lines line ih =>
    have moved := (step_reconstruct control lines line).counted_eq
    rw [results_concat, List.countP_append, List.length_append, List.length_singleton]
    change _ = _ + (_ + [((reconstruct control lines).ingest line).2].countP isRepeatedSyn)
    omega

theorem flowsOpened_reconstruct (control : PortRange) (lines : List (List Char)) :
    (reconstruct control lines).summary.flowsOpened = (reconstruct control lines).table.size := by
  induction lines using List.reverseRecOn with
  | nil => rfl
  | append_singleton lines line ih => exact (step_reconstruct control lines line).flowsOpened_eq ih

theorem acksRecorded_reconstruct (control : PortRange) (lines : List (List Char)) :
    (reconstruct control lines).summary.acksRecorded =
      (reconstruct control lines).table.ackCount := by
  induction lines using List.reverseRecOn with
  | nil => rfl
  | append_singleton lines line ih => exact (step_reconstruct control lines line).acksRecorded_eq ih

theorem malformed_reconstruct (control : PortRange) (lines : List (List Char)) :
    (reconstruct control lines).summary.malformed =
      lines.countP fun line => !(Line.decode line).isOk := by
  induction lines using List.reverseRecOn with
  | nil => rfl
  | append_singleton lines line ih =>
    rw [(step_reconstruct control lines line).malformed_eq, ih, List.countP_append,
      List.countP_singleton, List.countP_singleton, isMalformed_ofLine]

theorem mem_unmatched_reconstruct_iff (control : PortRange) (lines : List (List Char))
    (missing : UnmatchedAck) :
    missing ∈ (reconstruct control lines).summary.unmatched ↔ IsUnmatched control lines missing := by
  induction lines using List.reverseRecOn with
  | nil => simp [reconstruct, Session.ingestLines, IsUnmatched]
  | append_singleton lines line ih =>
    rw [(step_reconstruct control lines line).unmatched_eq, List.mem_append, ih,
      mem_missing_iff control lines line, isUnmatched_concat]

theorem pairwise_unmatched_reconstruct (control : PortRange) (lines : List (List Char)) :
    (reconstruct control lines).summary.unmatched.Pairwise fun earlier later =>
      earlier.line < later.line := by
  induction lines using List.reverseRecOn with
  | nil => exact List.Pairwise.nil
  | append_singleton lines line ih =>
    rw [(step_reconstruct control lines line).unmatched_eq]
    refine List.pairwise_append.mpr ⟨ih, Session.pairwise_missing _ _, ?_⟩
    intro earlier known later new
    have bound := ((mem_unmatched_reconstruct_iff control lines earlier).mp known).line_le
    have number := ((mem_missing_iff control lines line later).mp new).1
    omega

/-- Every line so far is accounted for, at the end of a run and, since the lines before it are a run
of their own, at every point of it. -/
theorem isAccount_reconstruct (control : PortRange) (lines : List (List Char)) :
    IsAccount control lines (reconstruct control lines) where
  lines_eq := lines_reconstruct control lines
  balance := (lines_reconstruct control lines).trans (balance_reconstruct control lines)
  flowsOpened_eq := flowsOpened_reconstruct control lines
  acksRecorded_eq := acksRecorded_reconstruct control lines
  malformed_eq := malformed_reconstruct control lines
  mem_unmatched_iff := mem_unmatched_reconstruct_iff control lines
  unmatched_ordered := pairwise_unmatched_reconstruct control lines

end FlowAudit.Trace
