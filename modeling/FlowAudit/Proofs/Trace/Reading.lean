import FlowAudit.Proofs.Trace.Replay
import Mathlib.Data.List.Induction

set_option autoImplicit false

/-!
The table of a trace, read off the trace. `IsReading` says which flows a trace opens, in which order,
when each started and when each ack was first seen after that; `eq_table_reconstruct_iff` says that
reconstruction finds this table and that the trace leaves no other.
-/
namespace FlowAudit.Trace

open FlowAudit.Text FlowAudit.Flow

/-- `line` is the first line with the property; `before` and `after` stand around it. -/
structure IsFirst (property : List Char → Prop) (lines before : List (List Char)) (line : List Char)
    (after : List (List Char)) : Prop where
  split : lines = before ++ line :: after
  here : property line
  earlier : ∀ other ∈ before, ¬property other

/-- The first flow opens at a line before which the second one does not open. -/
def OpensBefore (control : PortRange) (lines : List (List Char)) (first second : Key) : Prop :=
  ∃ before line after, lines = before ++ line :: after ∧ Opens control first line ∧
    ∀ other ∈ before, ¬Opens control second other

/-- The record of a flow as the lines around and after its opening tell it. -/
structure IsRecord (control : PortRange) (lines : List (List Char)) (key : Key) (record : Record)
    (before : List (List Char)) (line : List Char) (after : List (List Char)) : Prop where
  opening : IsFirst (Opens control key) lines before line after
  start : timeToken? line = some record.start
  /-- An ack is noted when it comes after the opening, wherever else it stands. -/
  acks : ∀ ack, record.acks.contains ack = true ↔ ∃ other ∈ after, Acknowledges control key ack other
  /-- Of the lines that bring an ack after the opening, the first gives its time. -/
  times : ∀ ack between other rest, IsFirst (Acknowledges control key ack) after between other rest →
    record.ackTime? ack = timeToken? other

structure IsReading (control : PortRange) (lines : List (List Char)) (table : Table) : Prop where
  keys : ∀ key, key ∈ table.keys ↔ ∃ line ∈ lines, Opens control key line
  order : table.keys.Pairwise (OpensBefore control lines)
  records : ∀ key record, table.get? key = some record →
    ∃ before line after, IsRecord control lines key record before line after

/-! First lines -/

theorem IsFirst.unique {property : List Char → Prop} {lines before before' after after' : List (List Char)}
    {line line' : List Char} (one : IsFirst property lines before line after)
    (other : IsFirst property lines before' line' after') :
    before = before' ∧ line = line' ∧ after = after' := by
  induction before generalizing lines before' with
  | nil =>
    have split := one.split.symm.trans other.split
    cases before' with
    | nil =>
      obtain ⟨rfl, rfl⟩ := List.cons.inj split
      exact ⟨rfl, rfl, rfl⟩
    | cons head rest =>
      obtain ⟨rfl, _⟩ := List.cons.inj split
      exact absurd one.here (other.earlier line List.mem_cons_self)
  | cons head rest ih =>
    have split := one.split.symm.trans other.split
    cases before' with
    | nil =>
      obtain ⟨rfl, _⟩ := List.cons.inj split
      exact absurd other.here (one.earlier head List.mem_cons_self)
    | cons head' rest' =>
      obtain ⟨rfl, tails⟩ := List.cons.inj split
      have shorter : IsFirst property (rest ++ line :: after) rest line after :=
        ⟨rfl, one.here, fun old inside => one.earlier old (List.mem_cons_of_mem _ inside)⟩
      have shorter' : IsFirst property (rest ++ line :: after) rest' line' after' :=
        ⟨tails, other.here, fun old inside => other.earlier old (List.mem_cons_of_mem _ inside)⟩
      have below := ih shorter shorter'
      exact ⟨congrArg (head :: ·) below.1, below.2⟩

theorem exists_isFirst {property : List Char → Prop} {lines : List (List Char)}
    (present : ∃ line ∈ lines, property line) :
    ∃ before line after, IsFirst property lines before line after := by
  induction lines with
  | nil => simp at present
  | cons head rest ih =>
    by_cases here : property head
    · exact ⟨[], head, rest, rfl, here, by simp⟩
    · have deeper : ∃ line ∈ rest, property line := by simpa [here] using present
      obtain ⟨before, line, after, first⟩ := ih deeper
      refine ⟨head :: before, line, after, ?_, first.here, ?_⟩
      · rw [first.split, List.cons_append]
      · intro other inside
        rcases List.mem_cons.mp inside with rfl | inside
        · exact here
        · exact first.earlier other inside

/-- The search for a time that only lines with a property give ends at the first such line. -/
theorem findSome?_eq_some_iff_isFirst {property : List Char → Prop}
    {time? : List Char → Option String}
    (gives : ∀ line time, time? line = some time ↔ property line ∧ timeToken? line = some time)
    (told : ∀ line, property line → ∃ time, timeToken? line = some time)
    (lines : List (List Char)) (time : String) :
    lines.findSome? time? = some time ↔
      ∃ before line after, IsFirst property lines before line after ∧ timeToken? line = some time := by
  have silent : ∀ line, time? line = none ↔ ¬property line := by
    intro line
    constructor
    · intro nothing holds
      obtain ⟨token, found⟩ := told line holds
      rw [(gives line token).mpr ⟨holds, found⟩] at nothing
      cases nothing
    · intro fails
      cases found : time? line with
      | none => rfl
      | some token => exact absurd ((gives line token).mp found).1 fails
  rw [List.findSome?_eq_some_iff]
  constructor
  · rintro ⟨before, line, after, split, found, nothing⟩
    obtain ⟨holds, token⟩ := (gives line time).mp found
    exact ⟨before, line, after,
      ⟨split, holds, fun other inside => (silent other).mp (nothing other inside)⟩, token⟩
  · rintro ⟨before, line, after, first, token⟩
    exact ⟨before, line, after, first.split, (gives line time).mpr ⟨first.here, token⟩,
      fun other inside => (silent other).mpr (first.earlier other inside)⟩

/-! The events of a trace -/

theorem startOf?_ofLine_eq_some_iff (control : PortRange) (key : Key) (line : List Char)
    (time : String) :
    (Event.ofLine control line).startOf? key = some time ↔
      Opens control key line ∧ timeToken? line = some time := by
  rw [← ofLine_eq_opening_iff]
  cases Event.ofLine control line with
  | opening other token =>
    simp only [Event.startOf?, Event.opening.injEq]
    by_cases same : key = other
    · simp [same]
    · simp [same, Ne.symm same]
  | malformed | control | acknowledgement | unrelated => simp [Event.startOf?]

theorem ackTimeOf?_ofLine_eq_some_iff (control : PortRange) (key : Key) (ack : UInt32)
    (line : List Char) (time : String) :
    (Event.ofLine control line).ackTimeOf? key ack = some time ↔
      Acknowledges control key ack line ∧ timeToken? line = some time := by
  rw [← ofLine_eq_acknowledgement_iff]
  cases Event.ofLine control line with
  | acknowledgement other number token =>
    simp only [Event.ackTimeOf?, Event.acknowledgement.injEq]
    by_cases same : key = other ∧ ack = number
    · simp [same]
    · rw [if_neg same]
      simp only [reduceCtorEq, false_iff]
      rintro ⟨rfl, rfl, _⟩
      exact same ⟨rfl, rfl⟩
  | malformed | control | opening | unrelated => simp [Event.ackTimeOf?]

theorem isSome_startOf?_iff (control : PortRange) (key : Key) (line : List Char) :
    ((Event.ofLine control line).startOf? key).isSome ↔ Opens control key line := by
  rw [Option.isSome_iff_exists]
  constructor
  · rintro ⟨time, found⟩
    exact ((startOf?_ofLine_eq_some_iff control key line time).mp found).1
  · intro opens
    obtain ⟨time, token⟩ := exists_timeToken?_of_opens opens
    exact ⟨time, (startOf?_ofLine_eq_some_iff control key line time).mpr ⟨opens, token⟩⟩

theorem mem_keys_reconstruct_iff (control : PortRange) (lines : List (List Char)) (key : Key) :
    key ∈ (reconstruct control lines).table.keys ↔ ∃ line ∈ lines, Opens control key line := by
  rw [table_reconstruct, mem_keys_replay, traceEvents]
  simp only [Table.keys_empty, List.not_mem_nil, false_or, List.mem_map, exists_exists_and_eq_and,
    isSome_startOf?_iff]

theorem start?_reconstruct_eq_some_iff (control : PortRange) (lines : List (List Char)) (key : Key)
    (time : String) :
    (reconstruct control lines).table.start? key = some time ↔
      ∃ before line after, IsFirst (Opens control key) lines before line after ∧
        timeToken? line = some time := by
  rw [table_reconstruct, start?_replay, Table.start?_empty, Option.none_or, traceEvents,
    List.findSome?_map]
  exact findSome?_eq_some_iff_isFirst (startOf?_ofLine_eq_some_iff control key)
    (fun _ => exists_timeToken?_of_opens) lines time

theorem fromOpening_traceEvents {control : PortRange} {key : Key}
    {lines before after : List (List Char)} {line : List Char}
    (opening : IsFirst (Opens control key) lines before line after) :
    fromOpening key (traceEvents control lines) =
      Event.ofLine control line :: traceEvents control after := by
  have closed : ∀ event ∈ traceEvents control before, (event.startOf? key).isNone = true := by
    intro event inside
    obtain ⟨other, earlier, rfl⟩ := List.mem_map.mp inside
    rw [← Option.not_isSome, Bool.not_eq_true', ← Bool.not_eq_true, isSome_startOf?_iff]
    exact opening.earlier other earlier
  have opens : ((Event.ofLine control line).startOf? key).isSome :=
    (isSome_startOf?_iff control key line).mpr opening.here
  rw [fromOpening, opening.split, traceEvents_append, traceEvents_cons,
    List.dropWhile_append_of_pos closed, List.dropWhile_cons_of_neg]
  simpa using Option.isSome_iff_ne_none.mp opens

theorem ackTime?_reconstruct_eq_some_iff {control : PortRange} {key : Key}
    {lines before after : List (List Char)} {line : List Char}
    (opening : IsFirst (Opens control key) lines before line after) (ack : UInt32) (time : String) :
    (reconstruct control lines).table.ackTime? key ack = some time ↔
      ∃ between other rest, IsFirst (Acknowledges control key ack) after between other rest ∧
        timeToken? other = some time := by
  have opens := (isSome_startOf?_iff control key line).mpr opening.here
  rw [table_reconstruct, ackTime?_replay_of_not_mem (by simp), fromOpening_traceEvents opening,
    List.findSome?_cons, Event.ackTimeOf?_of_startOf? opens, traceEvents, List.findSome?_map]
  exact findSome?_eq_some_iff_isFirst (ackTimeOf?_ofLine_eq_some_iff control key ack)
    (fun _ => exists_timeToken?_of_acknowledges) after time

/-! The reading -/

theorem OpensBefore.append {control : PortRange} {lines : List (List Char)} {first second : Key}
    (earlier : OpensBefore control lines first second) (more : List (List Char)) :
    OpensBefore control (lines ++ more) first second := by
  obtain ⟨before, line, after, split, opens, closed⟩ := earlier
  exact ⟨before, line, after ++ more, by simp [split], opens, closed⟩

theorem OpensBefore.antisymm {control : PortRange} {lines : List (List Char)} {first second : Key}
    (one : OpensBefore control lines first second) (other : OpensBefore control lines second first) :
    first = second := by
  obtain ⟨before, line, after, split, opens, closed⟩ := one
  obtain ⟨before', line', after', split', opens', closed'⟩ := other
  rcases List.append_eq_append_iff.mp (split.symm.trans split') with
    ⟨middle, longer, tail⟩ | ⟨middle, longer, tail⟩
  · cases middle with
    | nil => exact opens.unique ((List.cons.inj tail).1 ▸ opens')
    | cons head rest =>
      obtain ⟨rfl, _⟩ := List.cons.inj tail
      exact absurd opens (closed' line (by simp [longer]))
  · cases middle with
    | nil => exact ((List.cons.inj tail).1 ▸ opens).unique opens'
    | cons head rest =>
      obtain ⟨rfl, _⟩ := List.cons.inj tail
      exact absurd opens' (closed line' (by simp [longer]))

theorem pairwise_keys_reconstruct (control : PortRange) (lines : List (List Char)) :
    (reconstruct control lines).table.keys.Pairwise (OpensBefore control lines) := by
  induction lines using List.reverseRecOn with
  | nil => exact List.Pairwise.nil
  | append_singleton lines line ih =>
    have old := ih.imp fun earlier => earlier.append [line]
    rw [reconstruct_concat, Session.table_ingest, control_reconstruct]
    rcases Event.keys_applyTo (Event.ofLine control line) (reconstruct control lines).table with
      same | ⟨key, new, opens, added⟩
    · rwa [same]
    · rw [added]
      refine List.pairwise_append.mpr ⟨old, List.pairwise_singleton _ _, ?_⟩
      intro first known second single
      rw [List.mem_singleton.mp single]
      obtain ⟨opening, inside, opens⟩ := (mem_keys_reconstruct_iff control lines first).mp known
      obtain ⟨before, after, split⟩ := List.append_of_mem inside
      refine ⟨before, opening, after ++ [line], by simp [split], opens, ?_⟩
      intro other earlier opensKey
      exact new ((mem_keys_reconstruct_iff control lines key).mpr
        ⟨other, by simp [split, earlier], opensKey⟩)

theorem isRecord_reconstruct {control : PortRange} {lines : List (List Char)} {key : Key}
    {record : Record} (found : (reconstruct control lines).table.get? key = some record) :
    ∃ before line after, IsRecord control lines key record before line after := by
  have start : (reconstruct control lines).table.start? key = some record.start := by
    rw [Table.start?, found, Option.map_some]
  obtain ⟨before, line, after, opening, token⟩ :=
    (start?_reconstruct_eq_some_iff control lines key record.start).mp start
  have time : ∀ ack time, record.ackTime? ack = some time ↔
      ∃ between other rest, IsFirst (Acknowledges control key ack) after between other rest ∧
        timeToken? other = some time := by
    intro ack time
    rw [← ackTime?_reconstruct_eq_some_iff opening, Table.ackTime?, found, Option.bind_some]
  refine ⟨before, line, after, opening, token, ?_, ?_⟩
  · intro ack
    change (record.ackTime? ack).isSome = true ↔ _
    rw [Option.isSome_iff_exists]
    constructor
    · rintro ⟨known, noted⟩
      obtain ⟨between, other, rest, first, _⟩ := (time ack known).mp noted
      exact ⟨other, by simp [first.split], first.here⟩
    · intro present
      obtain ⟨between, other, rest, first⟩ := exists_isFirst present
      obtain ⟨known, token⟩ := exists_timeToken?_of_acknowledges first.here
      exact ⟨known, (time ack known).mpr ⟨between, other, rest, first, token⟩⟩
  · intro ack between other rest first
    obtain ⟨known, token⟩ := exists_timeToken?_of_acknowledges first.here
    rw [token]
    exact (time ack known).mpr ⟨between, other, rest, first, token⟩

theorem isReading_reconstruct (control : PortRange) (lines : List (List Char)) :
    IsReading control lines (reconstruct control lines).table where
  keys := mem_keys_reconstruct_iff control lines
  order := pairwise_keys_reconstruct control lines
  records _ _ := isRecord_reconstruct

theorem IsRecord.unique {control : PortRange} {lines before before' after after' : List (List Char)}
    {key : Key} {first second : Record} {line line' : List Char}
    (one : IsRecord control lines key first before line after)
    (other : IsRecord control lines key second before' line' after') : first = second := by
  obtain ⟨rfl, rfl, rfl⟩ := one.opening.unique other.opening
  apply Record.ext_views
  · exact Option.some.inj (one.start.symm.trans other.start)
  · intro ack
    by_cases present : ∃ bringer ∈ after, Acknowledges control key ack bringer
    · obtain ⟨between, bringer, rest, earliest⟩ := exists_isFirst present
      rw [one.times ack between bringer rest earliest, other.times ack between bringer rest earliest]
    · have absent := mt (one.acks ack).mp present
      have absent' := mt (other.acks ack).mp present
      exact (Option.not_isSome_iff_eq_none.mp absent).trans
        (Option.not_isSome_iff_eq_none.mp absent').symm

theorem IsReading.unique {control : PortRange} {lines : List (List Char)} {first second : Table}
    (one : IsReading control lines first) (other : IsReading control lines second) :
    first = second := by
  have members : ∀ key, key ∈ first.keys ↔ key ∈ second.keys := by
    intro key
    rw [one.keys, other.keys]
  have keys : first.keys = second.keys := by
    refine List.Perm.eq_of_pairwise ?_ one.order other.order
      ((List.perm_ext_iff_of_nodup first.distinct second.distinct).mpr members)
    intro earlier later _ _ before after
    exact before.antisymm after
  apply Table.ext_get? keys
  intro key
  by_cases known : key ∈ first.keys
  · obtain ⟨record, found⟩ := (Table.exists_get?_iff first key).mpr known
    obtain ⟨record', found'⟩ := (Table.exists_get?_iff second key).mpr ((members key).mp known)
    obtain ⟨_, _, _, reads⟩ := one.records key record found
    obtain ⟨_, _, _, reads'⟩ := other.records key record' found'
    rw [found, found', reads.unique reads']
  · rw [(Table.get?_eq_none_iff first key).mpr known,
      (Table.get?_eq_none_iff second key).mpr (mt (members key).mpr known)]

/-- Reconstruction finds what the trace tells, and a table with anything else in it is another. -/
theorem eq_table_reconstruct_iff (control : PortRange) (lines : List (List Char)) (table : Table) :
    table = (reconstruct control lines).table ↔ IsReading control lines table := by
  constructor
  · rintro rfl
    exact isReading_reconstruct control lines
  · intro reads
    exact reads.unique (isReading_reconstruct control lines)

end FlowAudit.Trace
