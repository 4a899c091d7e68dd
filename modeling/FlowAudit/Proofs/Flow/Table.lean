import FlowAudit.Flow.Table
import FlowAudit.Proofs.Flow.Timeline
import Mathlib.Data.List.Nodup

set_option autoImplicit false

/-!
Flow tables as ordered maps. A table is known by its keys in their order and by the record of each
(`ext_get?`), and a record by its start and its ack times (`ext_views`). Merging keeps what the first
table knows: its keys come first, and where both tables have a start or an ack time, the first one's
stays.
-/
namespace FlowAudit.Flow

namespace Record

theorem ext_views {first second : Record} (start : first.start = second.start)
    (acks : ∀ ack, first.ackTime? ack = second.ackTime? ack) : first = second := by
  cases first
  cases second
  simp only [mk.injEq]
  exact ⟨start, Timeline.ext_time? acks⟩

theorem ackTime?_opened (start : String) (ack : UInt32) : (opened start).ackTime? ack = none := rfl

theorem ackTime?_recordAck (record : Record) (ack other : UInt32) (time : String) :
    (record.recordAck ack time).ackTime? other =
      (record.ackTime? other).or (if other = ack then some time else none) :=
  Timeline.time?_insert_or record.acks ack other time

theorem ackTime?_absorb (record other : Record) (ack : UInt32) :
    (record.absorb other).ackTime? ack = (record.ackTime? ack).or (other.ackTime? ack) :=
  Timeline.time?_union record.acks other.acks ack

end Record

namespace Table

/-- When a flow was opened. -/
def start? (table : Table) (key : Key) : Option String :=
  (table.get? key).map Record.start

/-- When an ack of a flow was first seen. -/
def ackTime? (table : Table) (key : Key) (ack : UInt32) : Option String :=
  (table.get? key).bind fun record => record.ackTime? ack

theorem lookup_flow (key other : Key) (record : Record) (rest : List (Key × Record)) :
    ((key, record) :: rest).lookup other = if other = key then some record else rest.lookup other := by
  by_cases same : other = key
  · simp [same]
  · simp [List.lookup_cons, same, beq_eq_false_iff_ne.mpr same]

theorem lookup_eq_none_iff (flows : List (Key × Record)) (key : Key) :
    flows.lookup key = none ↔ key ∉ flows.map Prod.fst := by
  induction flows with
  | nil => simp
  | cons flow rest ih =>
    rw [lookup_flow flow.1 key flow.2 rest, List.map_cons, List.mem_cons, not_or, ← ih]
    by_cases same : key = flow.1 <;> simp [same]

theorem get?_eq_none_iff (table : Table) (key : Key) : table.get? key = none ↔ key ∉ table.keys :=
  lookup_eq_none_iff table.flows key

theorem exists_get?_iff (table : Table) (key : Key) :
    (∃ record, table.get? key = some record) ↔ key ∈ table.keys := by
  rw [← Option.ne_none_iff_exists', ne_eq, get?_eq_none_iff, Classical.not_not]

/-- In a list that has no key twice, looking up finds the value that stands with the key. -/
theorem lookup_eq_some_iff_mem {α : Type} {pairs : List (Key × α)}
    (distinct : (pairs.map Prod.fst).Nodup) (key : Key) (value : α) :
    pairs.lookup key = some value ↔ (key, value) ∈ pairs := by
  constructor
  · intro found
    obtain ⟨before, after, split, _⟩ := List.lookup_eq_some_iff.mp found
    rw [split]
    simp
  · intro inside
    obtain ⟨before, after, split⟩ := List.append_of_mem inside
    rw [split, List.map_append, List.map_cons, List.nodup_append] at distinct
    refine List.lookup_eq_some_iff.mpr ⟨before, after, split, ?_⟩
    intro earlier known
    have differs := distinct.2.2 earlier.1 (List.mem_map_of_mem known) key List.mem_cons_self
    simpa using Ne.symm differs

theorem get?_eq_some_iff (table : Table) (key : Key) (record : Record) :
    table.get? key = some record ↔ (key, record) ∈ table.flows :=
  lookup_eq_some_iff_mem table.distinct key record

theorem get?_of_mem {table : Table} {key : Key} {record : Record}
    (inside : (key, record) ∈ table.flows) : table.get? key = some record :=
  (get?_eq_some_iff table key record).mpr inside

theorem start?_eq_none_iff (table : Table) (key : Key) :
    table.start? key = none ↔ key ∉ table.keys := by
  rw [start?, Option.map_eq_none_iff, get?_eq_none_iff]

theorem ackTime?_of_not_mem {table : Table} {key : Key} (absent : key ∉ table.keys) (ack : UInt32) :
    table.ackTime? key ack = none := by
  rw [ackTime?, (get?_eq_none_iff table key).mpr absent, Option.bind_none]

/-! Extensionality -/

theorem flows_eq_of_lookup {first second : List (Key × Record)}
    (distinct : (first.map Prod.fst).Nodup) (keys : first.map Prod.fst = second.map Prod.fst)
    (records : ∀ key, first.lookup key = second.lookup key) : first = second := by
  induction first generalizing second with
  | nil => exact (List.map_eq_nil_iff.mp keys.symm).symm
  | cons flow rest ih =>
    cases second with
    | nil => cases keys
    | cons other others =>
      simp only [List.map_cons, List.cons.injEq] at keys
      have parts := List.nodup_cons.mp distinct
      have here := records flow.1
      rw [lookup_flow flow.1, lookup_flow other.1, if_pos rfl, if_pos keys.1] at here
      have tail : rest = others := by
        apply ih parts.2 keys.2
        intro key
        by_cases same : key = flow.1
        · subst same
          rw [(lookup_eq_none_iff rest flow.1).mpr parts.1,
            (lookup_eq_none_iff others flow.1).mpr (keys.2 ▸ parts.1)]
        · have below := records key
          rwa [lookup_flow flow.1, lookup_flow other.1, if_neg same,
            if_neg (keys.1 ▸ same)] at below
      rw [tail, Prod.ext keys.1 (Option.some.inj here)]

theorem ext_get? {first second : Table} (keys : first.keys = second.keys)
    (records : ∀ key, first.get? key = second.get? key) : first = second := by
  have flows := flows_eq_of_lookup first.distinct keys records
  cases first
  cases second
  simpa only [mk.injEq] using flows

theorem ext_views {first second : Table} (keys : first.keys = second.keys)
    (starts : ∀ key, first.start? key = second.start? key)
    (acks : ∀ key ack, first.ackTime? key ack = second.ackTime? key ack) : first = second := by
  apply ext_get? keys
  intro key
  have start := starts key
  have times := acks key
  simp only [start?, ackTime?] at start times
  cases left : first.get? key with
  | none =>
    rw [left, Option.map_none, eq_comm, Option.map_eq_none_iff] at start
    exact start.symm
  | some known =>
    rw [left, Option.map_some, eq_comm, Option.map_eq_some_iff] at start
    obtain ⟨other, right, start⟩ := start
    rw [right]
    rw [left, right] at times
    exact congrArg some (Record.ext_views start.symm times)

/-! Operations -/

@[simp] theorem keys_empty : empty.keys = [] := rfl

@[simp] theorem start?_empty (key : Key) : empty.start? key = none := rfl

@[simp] theorem ackTime?_empty (key : Key) (ack : UInt32) : empty.ackTime? key ack = none := rfl

theorem keys_append (table : Table) (key : Key) (record : Record) (new : key ∉ table.keys) :
    (table.append key record new).keys = table.keys ++ [key] := by
  simp [keys, append]

theorem get?_append (table : Table) (key other : Key) (record : Record) (new : key ∉ table.keys) :
    (table.append key record new).get? other =
      (table.get? other).or (if other = key then some record else none) := by
  simp only [get?, append, List.lookup_append, lookup_flow, List.lookup_nil]

theorem keys_modify (table : Table) (key : Key) (change : Record → Record) :
    (table.modify key change).keys = table.keys := by
  simp only [keys, modify, List.map_map]
  apply List.map_congr_left
  intro flow _
  simp only [Function.comp_apply]
  split <;> rfl

theorem get?_modify (table : Table) (key other : Key) (change : Record → Record) :
    (table.modify key change).get? other =
      if other = key then (table.get? other).map change else table.get? other := by
  simp only [get?, modify]
  induction table.flows with
  | nil => simp
  | cons flow rest ih =>
    rw [List.map_cons]
    by_cases here : flow.1 = key
    · subst here
      rw [if_pos rfl, lookup_flow flow.1 other, ih, lookup_flow flow.1 other flow.2]
      by_cases same : other = flow.1 <;> simp [same]
    · rw [if_neg here, lookup_flow flow.1 other flow.2, ih, lookup_flow flow.1 other flow.2]
      by_cases same : other = flow.1
      · simp [same, here]
      · simp only [if_neg same]

/-- A change replaces the record of the flow where it stands in the list. -/
theorem exists_flows_modify {table : Table} {key : Key} (known : key ∈ table.keys) :
    ∃ front record back, table.flows = front ++ (key, record) :: back ∧
      ∀ edit, (table.modify key edit).flows = front ++ (key, edit record) :: back := by
  obtain ⟨record, found⟩ := (exists_get?_iff table key).mpr known
  obtain ⟨front, back, split, _⟩ := List.lookup_eq_some_iff.mp found
  refine ⟨front, record, back, split, ?_⟩
  intro edit
  have distinct := table.distinct
  rw [split, List.map_append, List.map_cons, List.nodup_middle, List.nodup_cons,
    List.mem_append, not_or] at distinct
  obtain ⟨⟨before, after⟩, _⟩ := distinct
  have others : ∀ flows : List (Key × Record), key ∉ flows.map Prod.fst →
      (flows.map fun flow => if flow.1 = key then (flow.1, edit flow.2) else flow) = flows := by
    intro flows absent
    refine (List.map_congr_left ?_).trans (List.map_id flows)
    intro flow held
    have differs : flow.1 ≠ key := fun same => absent (same ▸ List.mem_map_of_mem held)
    exact if_neg differs
  change table.flows.map _ = _
  rw [split, List.map_append, List.map_cons, if_pos rfl, others front before, others back after]

theorem openFlow_of_mem {table : Table} {key : Key} (known : key ∈ table.keys) (start : String) :
    table.openFlow key start = table :=
  dif_pos known

theorem openFlow_of_not_mem {table : Table} {key : Key} (new : key ∉ table.keys) (start : String) :
    table.openFlow key start = table.append key (Record.opened start) new :=
  dif_neg new

theorem keys_openFlow (table : Table) (key : Key) (start : String) :
    (table.openFlow key start).keys = if key ∈ table.keys then table.keys else table.keys ++ [key] := by
  simp only [openFlow]
  split
  · rfl
  · exact keys_append table key _ _

theorem get?_openFlow (table : Table) (key other : Key) (start : String) :
    (table.openFlow key start).get? other =
      (table.get? other).or (if other = key then some (Record.opened start) else none) := by
  simp only [openFlow]
  split
  · rename_i known
    by_cases same : other = key
    · subst same
      obtain ⟨record, found⟩ := (exists_get?_iff table other).mpr known
      simp [found]
    · simp [same]
  · exact get?_append table key other _ _

theorem start?_openFlow (table : Table) (key other : Key) (start : String) :
    (table.openFlow key start).start? other =
      (table.start? other).or (if other = key then some start else none) := by
  rw [start?, start?, get?_openFlow, Option.map_or]
  by_cases same : other = key <;> simp [same, Record.opened]

theorem ackTime?_openFlow (table : Table) (key other : Key) (start : String) (ack : UInt32) :
    (table.openFlow key start).ackTime? other ack = table.ackTime? other ack := by
  rw [ackTime?, ackTime?, get?_openFlow]
  cases table.get? other with
  | some record => rfl
  | none => by_cases same : other = key <;> simp [same, Record.ackTime?_opened]

theorem keys_recordAck (table : Table) (key : Key) (ack : UInt32) (time : String) :
    (table.recordAck key ack time).keys = table.keys :=
  keys_modify table key _

theorem start?_recordAck (table : Table) (key other : Key) (ack : UInt32) (time : String) :
    (table.recordAck key ack time).start? other = table.start? other := by
  rw [start?, start?, recordAck, get?_modify]
  split
  · cases table.get? other <;> rfl
  · rfl

theorem ackTime?_recordAck (table : Table) (key other : Key) (ack number : UInt32) (time : String) :
    (table.recordAck key ack time).ackTime? other number =
      (table.ackTime? other number).or
        (if other ∈ table.keys ∧ other = key ∧ number = ack then some time else none) := by
  rw [ackTime?, ackTime?, recordAck, get?_modify]
  cases found : table.get? other with
  | none =>
    have absent := (get?_eq_none_iff table other).mp found
    simp [absent]
  | some record =>
    have known : other ∈ table.keys := (exists_get?_iff table other).mp ⟨record, found⟩
    by_cases same : other = key
    · subst same
      simp [known, Record.ackTime?_recordAck]
    · simp [same]

/-- The ack of a flow that the table lacks leaves no trace. -/
theorem recordAck_of_not_mem {table : Table} {key : Key} (absent : key ∉ table.keys) (ack : UInt32)
    (time : String) : table.recordAck key ack time = table := by
  apply ext_views (keys_recordAck table key ack time) (start?_recordAck table key · ack time)
  intro other number
  rw [ackTime?_recordAck]
  have elsewhere : ¬(other ∈ table.keys ∧ other = key ∧ number = ack) := by
    rintro ⟨known, rfl, _⟩
    exact absent known
  rw [if_neg elsewhere, Option.or_none]

/-- An ack that has a time already keeps it. -/
theorem recordAck_of_known {table : Table} {key : Key} {ack : UInt32}
    (known : (table.ackTime? key ack).isSome) (time : String) :
    table.recordAck key ack time = table := by
  apply ext_views (keys_recordAck table key ack time) (start?_recordAck table key · ack time)
  intro other number
  rw [ackTime?_recordAck]
  by_cases same : other = key ∧ number = ack
  · obtain ⟨rfl, rfl⟩ := same
    obtain ⟨first, found⟩ := Option.isSome_iff_exists.mp known
    rw [found, Option.some_or]
  · rw [if_neg fun found => same found.2, Option.or_none]

theorem keys_absorb (table : Table) (key : Key) (record : Record) :
    (table.absorb key record).keys =
      if key ∈ table.keys then table.keys else table.keys ++ [key] := by
  simp only [absorb]
  split
  · exact keys_modify table key _
  · exact keys_append table key _ _

theorem get?_absorb (table : Table) (key other : Key) (record : Record) :
    (table.absorb key record).get? other =
      Option.merge Record.absorb (table.get? other) (if other = key then some record else none) := by
  simp only [absorb]
  split
  · rename_i known
    rw [get?_modify]
    by_cases same : other = key
    · subst same
      obtain ⟨first, found⟩ := (exists_get?_iff table other).mpr known
      simp [found]
    · simp [same]
  · rename_i absent
    rw [get?_append]
    by_cases same : other = key
    · subst same
      simp [(get?_eq_none_iff table other).mpr absent]
    · simp [same]

theorem keys_foldl_absorb (flows : List (Key × Record)) (table : Table)
    (distinct : (flows.map Prod.fst).Nodup) :
    (flows.foldl (fun merged flow => merged.absorb flow.1 flow.2) table).keys =
      table.keys ++ (flows.map Prod.fst).filter fun key => key ∉ table.keys := by
  induction flows generalizing table with
  | nil => simp
  | cons flow rest ih =>
    have parts := List.nodup_cons.mp distinct
    rw [List.foldl_cons, ih _ parts.2, keys_absorb, List.map_cons, List.filter_cons]
    by_cases known : flow.1 ∈ table.keys
    · simp [known]
    · have others : (rest.map Prod.fst).filter (fun key => key ∉ table.keys ++ [flow.1]) =
          (rest.map Prod.fst).filter fun key => key ∉ table.keys := by
        apply List.filter_congr
        intro key inside
        have differs : key ≠ flow.1 := fun same => parts.1 (same ▸ inside)
        simp [differs]
      rw [if_neg known, others, List.append_assoc, List.singleton_append, if_pos]
      exact decide_eq_true known

theorem get?_foldl_absorb (flows : List (Key × Record)) (table : Table)
    (distinct : (flows.map Prod.fst).Nodup) (key : Key) :
    (flows.foldl (fun merged flow => merged.absorb flow.1 flow.2) table).get? key =
      Option.merge Record.absorb (table.get? key) (flows.lookup key) := by
  induction flows generalizing table with
  | nil => simp
  | cons flow rest ih =>
    have parts := List.nodup_cons.mp distinct
    rw [List.foldl_cons, ih _ parts.2, get?_absorb, lookup_flow flow.1 key flow.2 rest]
    by_cases same : key = flow.1
    · subst same
      simp [(lookup_eq_none_iff rest flow.1).mpr parts.1]
    · simp [same]

theorem keys_merge (table other : Table) :
    (table.merge other).keys = table.keys ++ other.keys.filter fun key => key ∉ table.keys :=
  keys_foldl_absorb other.flows table other.distinct

/-- A flow that only one table has is taken as it is. -/
theorem get?_merge (table other : Table) (key : Key) :
    (table.merge other).get? key =
      Option.merge Record.absorb (table.get? key) (other.get? key) :=
  get?_foldl_absorb other.flows table other.distinct key

theorem start?_merge (table other : Table) (key : Key) :
    (table.merge other).start? key = (table.start? key).or (other.start? key) := by
  simp only [start?, get?_merge]
  cases table.get? key <;> cases other.get? key <;> rfl

theorem ackTime?_merge (table other : Table) (key : Key) (ack : UInt32) :
    (table.merge other).ackTime? key ack =
      (table.ackTime? key ack).or (other.ackTime? key ack) := by
  simp only [ackTime?, get?_merge]
  cases table.get? key <;> cases other.get? key <;> simp [Record.ackTime?_absorb]

theorem empty_merge (table : Table) : empty.merge table = table := by
  apply ext_get?
  · simp [keys_merge]
  · intro key
    rw [get?_merge]
    exact Option.merge_none_left

end Table

end FlowAudit.Flow
