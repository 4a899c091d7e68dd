import FlowAudit.Flow.Index
import FlowAudit.Proofs.Flow.Concatenation
import FlowAudit.Proofs.Flow.Merge
import Mathlib.Logic.Relation

set_option autoImplicit false

/-!
Indexed tables in step with their index. An index is in step when it gives each key its place among the
entries and has no other key; it then never leads past the end, and the table does all that the table
without an index does (`Represents`). Every operation keeps the index in step and the places that were
given before (`isSound_of_reachable`).
-/
namespace FlowAudit.Flow

open FlowAudit.Text

namespace Places

@[simp] theorem place?_empty (key : Key) : empty.place? key = none := rfl

theorem lookup_filter_ne {pairs : List (Key × Nat)} {key other : Key} (differs : other ≠ key) :
    (pairs.filter fun pair => pair.1 ≠ key).lookup other = pairs.lookup other := by
  induction pairs with
  | nil => rfl
  | cons pair rest ih =>
    by_cases dropped : pair.1 = key
    · have elsewhere : (other == pair.1) = false := beq_eq_false_iff_ne.mpr (dropped ▸ differs)
      rw [List.filter_cons_of_neg (by simpa using dropped), ih, List.lookup_cons, elsewhere]
    · rw [List.filter_cons_of_pos (by simpa using dropped), List.lookup_cons, List.lookup_cons, ih]

theorem place?_insert (places : Places) (key other : Key) (place : Nat) :
    (places.insert key place).place? other = if other = key then some place else places.place? other := by
  rw [place?, insert, List.lookup_cons]
  by_cases same : other = key
  · simp [same]
  · rw [beq_eq_false_iff_ne.mpr same, if_neg same]
    exact lookup_filter_ne same

theorem place?_eq_some_iff (places : Places) (key : Key) (place : Nat) :
    places.place? key = some place ↔ (key, place) ∈ places.pairs :=
  Table.lookup_eq_some_iff_mem places.distinct key place

/-- Places that are the same for every key agree, in whatever order they were given. -/
theorem beq_of_place?_eq {first second : Places}
    (same : ∀ key, first.place? key = second.place? key) : (first == second) = true := by
  have members : ∀ pair, pair ∈ first.pairs ↔ pair ∈ second.pairs := by
    rintro ⟨key, place⟩
    rw [← place?_eq_some_iff, ← place?_eq_some_iff, same]
  have permuted := (List.perm_ext_iff_of_nodup (List.Nodup.of_map _ first.distinct)
    (List.Nodup.of_map _ second.distinct)).mpr members
  change first.agree second = true
  rw [agree, Bool.and_eq_true, beq_iff_eq, List.all_eq_true]
  refine ⟨permuted.length_eq, ?_⟩
  intro pair inside
  exact beq_iff_eq.mpr ((place?_eq_some_iff second pair.1 pair.2).mpr ((members pair).mp inside))

end Places

namespace Table

theorem keys_prefix_absorb (table : Table) (key : Key) (record : Record) :
    table.keys <+: (table.absorb key record).keys := by
  rw [keys_absorb]
  split
  · exact List.prefix_rfl
  · exact List.prefix_append table.keys [key]

theorem keys_prefix_absorbAll (table : Table) (flows : List (Key × Record)) :
    table.keys <+: (table.absorbAll flows).keys := by
  induction flows generalizing table with
  | nil => exact List.prefix_rfl
  | cons flow rest ih => exact (table.keys_prefix_absorb flow.1 flow.2).trans (ih _)

end Table

theorem getElem?_concat_eq_some_iff {α : Type} {items : List α} {last item : α} {place : Nat} :
    (items ++ [last])[place]? = some item ↔
      items[place]? = some item ∨ place = items.length ∧ item = last := by
  rw [List.getElem?_append]
  split
  · rename_i before
    simp [Nat.ne_of_lt before]
  · rename_i after
    have end_iff : place - items.length = 0 ↔ place = items.length := by omega
    simp [List.getElem?_eq_none (Nat.not_lt.mp after), List.getElem?_singleton, end_iff, eq_comm]

namespace IndexedTable

/-- The index has the keys of the entries, each at its place, and no others. -/
def InStep (table : IndexedTable) : Prop :=
  ∀ key place, table.places.place? key = some place ↔ table.keys[place]? = some key

/-- The indexed table has the flows of the table, and its index is in step with them. -/
structure Represents (table : IndexedTable) (plain : Table) : Prop where
  entries : table.entries = plain.flows
  inStep : table.InStep

/-- An index gives one place to a key, so that a key cannot stand at two. -/
theorem InStep.nodup {table : IndexedTable} (inStep : table.InStep) : table.keys.Nodup := by
  rw [List.nodup_iff_getElem?_ne_getElem?]
  intro first second before inside same
  have here := List.getElem?_eq_getElem inside
  have one := (inStep _ first).mpr (same.trans here)
  have other := (inStep _ second).mpr here
  rw [one] at other
  exact Nat.ne_of_lt before (Option.some.inj other)

theorem InStep.exists_represents {table : IndexedTable} (inStep : table.InStep) :
    ∃ plain, table.Represents plain :=
  ⟨⟨table.entries, inStep.nodup⟩, rfl, inStep⟩

theorem represents_empty : empty.Represents Table.empty where
  entries := rfl
  inStep := by
    intro key place
    simp [empty, keys]

namespace Represents

variable {table : IndexedTable} {plain : Table} (represents : table.Represents plain)

include represents

theorem keys_eq : table.keys = plain.keys := by
  rw [keys, represents.entries, Table.keys]

theorem plain_eq : table.plain = plain := by
  rw [IndexedTable.plain, represents.entries]
  exact Table.empty_merge plain

theorem contains_iff (key : Key) : table.contains key = true ↔ key ∈ plain.keys := by
  rw [contains, Option.isSome_iff_exists, ← represents.keys_eq, List.mem_iff_getElem?]
  exact exists_congr (represents.inStep key)

/-! Looking up -/

theorem locate?_of_not_mem {key : Key} (absent : key ∉ plain.keys) :
    table.locate? key = .ok none := by
  have unplaced : table.places.place? key = none := by
    rw [← Option.not_isSome_iff_eq_none]
    exact (represents.contains_iff key).not.mpr absent
  rw [locate?, unplaced]

theorem locate?_of_split {key : Key} {front back : List (Key × Record)} {record : Record}
    (split : plain.flows = front ++ (key, record) :: back) :
    table.locate? key = .ok (some (front.length, key, record)) := by
  have entry : table.entries[front.length]? = some (key, record) := by
    rw [represents.entries, split, List.getElem?_append_right (Nat.le_refl _), Nat.sub_self]
    rfl
  have place : table.places.place? key = some front.length := by
    rw [represents.inStep, keys, List.getElem?_map, entry, Option.map_some]
  simp only [locate?, place, entry]

theorem get?_eq (key : Key) : table.get? key = .ok (plain.get? key) := by
  by_cases known : key ∈ plain.keys
  · obtain ⟨front, record, back, split, _⟩ := Table.exists_flows_modify known
    have inside : (key, record) ∈ plain.flows := by simp [split]
    rw [get?, represents.locate?_of_split split, Table.get?_of_mem inside]
    rfl
  · rw [get?, represents.locate?_of_not_mem known, (Table.get?_eq_none_iff plain key).mpr known]
    rfl

/-! Operations -/

theorem modify?_of_not_mem {key : Key} (absent : key ∉ plain.keys) (edit : Record → Record) :
    table.modify? key edit = .ok none := by
  rw [modify?, represents.locate?_of_not_mem absent]
  rfl

theorem exists_modify? {key : Key} (known : key ∈ plain.keys) (edit : Record → Record) :
    ∃ next, table.modify? key edit = .ok (some next) ∧ next.Represents (plain.modify key edit) := by
  obtain ⟨front, record, back, split, modified⟩ := Table.exists_flows_modify known
  have entries : table.entries.set front.length (key, edit record) = (plain.modify key edit).flows := by
    rw [represents.entries, split, modified, List.set_append_right _ _ (Nat.le_refl _), Nat.sub_self]
    rfl
  refine ⟨⟨table.entries.set front.length (key, edit record), table.places⟩, ?_, entries, ?_⟩
  · rw [modify?, represents.locate?_of_split split]
    rfl
  · -- No key moves, and the index is the one of before.
    have keys : (plain.modify key edit).flows.map Prod.fst = table.keys :=
      (Table.keys_modify plain key edit).trans represents.keys_eq.symm
    intro owner place
    rw [IndexedTable.keys, entries, keys]
    exact represents.inStep owner place

theorem append {key : Key} (new : key ∉ plain.keys) (record : Record) :
    (table.append key record).Represents (plain.append key record new) where
  entries := by
    rw [IndexedTable.append, represents.entries, Table.append]
  inStep := by
    intro owner place
    have size : table.entries.length = table.keys.length := (List.length_map Prod.fst).symm
    have keys : (table.append key record).keys = table.keys ++ [key] := List.map_append
    rw [keys, getElem?_concat_eq_some_iff, IndexedTable.append, Places.place?_insert, size]
    by_cases same : owner = key
    · have absent : table.keys[place]? ≠ some key := by
        intro found
        exact new (represents.keys_eq ▸ List.mem_of_getElem? found)
      simp [same, absent, eq_comm]
    · simp [same, represents.inStep owner place]

theorem openFlow (key : Key) (start : String) :
    (table.openFlow key start).Represents (plain.openFlow key start) := by
  by_cases known : key ∈ plain.keys
  · rw [IndexedTable.openFlow, if_pos ((represents.contains_iff key).mpr known),
      Table.openFlow_of_mem known]
    exact represents
  · rw [IndexedTable.openFlow, if_neg ((represents.contains_iff key).not.mpr known),
      Table.openFlow_of_not_mem known]
    exact represents.append known (Record.opened start)

theorem exists_absorb (key : Key) (record : Record) :
    ∃ next, table.absorb key record = .ok next ∧ next.Represents (plain.absorb key record) := by
  by_cases known : key ∈ plain.keys
  · obtain ⟨next, changed, after⟩ := represents.exists_modify? known fun found => found.absorb record
    rw [IndexedTable.absorb, changed, Table.absorb, dif_pos known]
    exact ⟨next, rfl, after⟩
  · rw [IndexedTable.absorb, represents.modify?_of_not_mem known, Table.absorb, dif_neg known]
    exact ⟨_, rfl, represents.append known record⟩

end Represents

theorem Represents.exists_foldlM_absorb {table : IndexedTable} {plain : Table}
    (represents : table.Represents plain) (entries : List (Key × Record)) :
    ∃ next, entries.foldlM (fun merged entry => merged.absorb entry.1 entry.2) table = .ok next ∧
      next.Represents (plain.absorbAll entries) := by
  induction entries generalizing table plain with
  | nil => exact ⟨table, rfl, represents⟩
  | cons entry rest ih =>
    obtain ⟨middle, absorbed, between⟩ := represents.exists_absorb entry.1 entry.2
    obtain ⟨next, folded, after⟩ := ih between
    refine ⟨next, ?_, after⟩
    rw [List.foldlM_cons, absorbed]
    exact folded

/-- Merging asks nothing of the index of the other table. -/
theorem Represents.exists_merge {table : IndexedTable} {plain : Table}
    (represents : table.Represents plain) (other : IndexedTable) :
    ∃ next, table.merge other = .ok next ∧ next.Represents (plain.absorbAll other.entries) :=
  represents.exists_foldlM_absorb other.entries

/-! Reading -/

/-- Both readings give the same table, or both refuse the text for the same line. -/
inductive SameOutcome : Except TableError IndexedTable → Except TableError Table → Prop
  | ok {table : IndexedTable} {plain : Table} (represents : table.Represents plain) :
      SameOutcome (.ok table) (.ok plain)
  | error (error : TableError) : SameOutcome (.error error) (.error error)

theorem Represents.exists_readLines {table : IndexedTable} {plain : Table}
    (represents : table.Represents plain) (number : Nat) (rows : List (List Char)) :
    ∃ outcome, table.readLines number rows = .ok outcome ∧
      SameOutcome outcome (plain.readLines number rows) := by
  induction rows generalizing table plain number with
  | nil => exact ⟨.ok table, rfl, .ok represents⟩
  | cons line rest ih =>
    rw [readLines, Table.readLines]
    split
    · exact ih represents (number + 1)
    · cases outcome : readRecordLine line with
      | error cause => exact ⟨_, rfl, .error _⟩
      | ok flow =>
        obtain ⟨next, absorbed, after⟩ := represents.exists_absorb flow.1 flow.2
        obtain ⟨result, reads, same⟩ := ih after (number + 1)
        refine ⟨result, ?_, same⟩
        rw [← reads]
        exact congrArg (· >>= _) absorbed

theorem exists_ofInterchange (text : List Char) :
    ∃ outcome, ofInterchange text = .ok outcome ∧ SameOutcome outcome (Table.ofInterchange text) :=
  represents_empty.exists_readLines 1 (lines text)

theorem SameOutcome.map_plain {outcome : Except TableError IndexedTable}
    {plainly : Except TableError Table} (same : SameOutcome outcome plainly) :
    outcome.map plain = plainly := by
  cases same with
  | ok represents => exact congrArg Except.ok represents.plain_eq
  | error error => rfl

/-- To read with an index and then forget it is to read without one. -/
theorem map_plain_ofInterchange (text : List Char) :
    (ofInterchange text).map (Except.map plain) = .ok (Table.ofInterchange text) := by
  obtain ⟨outcome, succeeds, same⟩ := exists_ofInterchange text
  rw [succeeds, Except.map, same.map_plain]

/-! Histories -/

/-- One operation on a table. Any table may be merged into it, itself as well. -/
inductive Step (before : IndexedTable) : IndexedTable → Prop
  | opened (key : Key) (start : String) : Step before (before.openFlow key start)
  | acknowledged (key : Key) (ack : UInt32) (time : String) {after : IndexedTable}
      (notes : before.recordAck? key ack time = .ok (some after)) : Step before after
  | absorbed (key : Key) (record : Record) {after : IndexedTable}
      (adds : before.absorb key record = .ok after) : Step before after
  | merged (other : IndexedTable) {after : IndexedTable}
      (merges : before.merge other = .ok after) : Step before after

/-- The tables that operations make from nothing and from texts. -/
inductive Reachable : IndexedTable → Prop
  | empty : Reachable empty
  | read (text : List Char) {table : IndexedTable}
      (reads : ofInterchange text = .ok (.ok table)) : Reachable table
  | step {before after : IndexedTable} (reachable : Reachable before) (step : Step before after) :
      Reachable after

/-- After a step the index is in step again, and the keys stand where they stood. -/
theorem Step.inStep_and_prefix {before after : IndexedTable} (step : Step before after)
    (inStep : before.InStep) : after.InStep ∧ before.keys <+: after.keys := by
  obtain ⟨plain, represents⟩ := inStep.exists_represents
  have grows : ∀ {grown : Table}, after.Represents grown → plain.keys <+: grown.keys →
      after.InStep ∧ before.keys <+: after.keys := by
    intro grown later longer
    exact ⟨later.inStep, represents.keys_eq ▸ later.keys_eq ▸ longer⟩
  cases step with
  | opened key start =>
    exact grows (represents.openFlow key start) (plain.extends_openFlow key start).keys
  | acknowledged key ack time notes =>
    by_cases known : key ∈ plain.keys
    · obtain ⟨next, noted, later⟩ := represents.exists_modify? known fun record => record.recordAck ack time
      obtain rfl : next = after := Option.some.inj (Except.ok.inj (noted.symm.trans notes))
      exact grows later (plain.extends_recordAck key ack time).keys
    · rw [recordAck?, represents.modify?_of_not_mem known] at notes
      cases notes
  | absorbed key record adds =>
    obtain ⟨next, absorbed, later⟩ := represents.exists_absorb key record
    obtain rfl : next = after := Except.ok.inj (absorbed.symm.trans adds)
    exact grows later (plain.keys_prefix_absorb key record)
  | merged other merges =>
    obtain ⟨next, merged, later⟩ := represents.exists_merge other
    obtain rfl : next = after := Except.ok.inj (merged.symm.trans merges)
    exact grows later (plain.keys_prefix_absorbAll other.entries)

theorem Reachable.inStep {table : IndexedTable} (reachable : Reachable table) : table.InStep := by
  induction reachable with
  | empty => exact represents_empty.inStep
  | read text reads =>
    obtain ⟨outcome, succeeds, same⟩ := exists_ofInterchange text
    rw [← Except.ok.inj (reads.symm.trans succeeds)] at same
    generalize Table.ofInterchange text = plainly at same
    cases same with
    | ok represents => exact represents.inStep
  | step _ step before => exact (step.inStep_and_prefix before).1

/-- However long the operations go on, no key changes its place. -/
theorem keys_prefix_of_steps {before after : IndexedTable} (inStep : before.InStep)
    (steps : Relation.ReflTransGen Step before after) :
    after.InStep ∧ before.keys <+: after.keys := by
  induction steps with
  | refl => exact ⟨inStep, List.prefix_rfl⟩
  | tail _ step earlier =>
    obtain ⟨next, longer⟩ := step.inStep_and_prefix earlier.1
    exact ⟨next, earlier.2.trans longer⟩

theorem InStep.place?_of_prefix {before after : IndexedTable} (first : before.InStep)
    (later : after.InStep) (longer : before.keys <+: after.keys) {key : Key} {place : Nat}
    (given : before.places.place? key = some place) : after.places.place? key = some place := by
  rw [first] at given
  rw [later]
  obtain ⟨added, grown⟩ := longer
  obtain ⟨inside, _⟩ := List.getElem?_eq_some_iff.mp given
  rw [← grown, List.getElem?_append_left inside, given]

theorem beq_iff_of_inStep {first second : IndexedTable} (one : first.InStep) (other : second.InStep) :
    (first == second) = true ↔ first.entries = second.entries := by
  have parts : (first == second) =
      (first.entries == second.entries && first.places == second.places) := rfl
  rw [parts, Bool.and_eq_true, beq_iff_eq, and_iff_left_iff_imp]
  intro same
  apply Places.beq_of_place?_eq
  intro key
  apply Option.ext
  intro place
  rw [one, other, keys, keys, same]

/-! Soundness -/

/-- What a table with an index has to keep, so that no operation can fail or find another flow. -/
structure IsSound (table : IndexedTable) : Prop where
  distinct : table.keys.Nodup
  /-- The index has the keys of the entries, each at its place, and no others. -/
  index : ∀ key place, table.places.place? key = some place ↔ table.keys[place]? = some key
  ascending : ∀ entry ∈ table.entries,
    entry.2.acks.entries.Pairwise fun earlier later => earlier.1 < later.1
  /-- Looking up never leads past the end and finds the entry of the key, if the key is listed. -/
  lookup : ∀ key, ∃ found, table.get? key = .ok found ∧ (found.isSome ↔ key ∈ table.keys) ∧
    ∀ record, found = some record ↔ (key, record) ∈ table.entries
  modify : ∀ key edit, ∃ changed, table.modify? key edit = .ok changed ∧
    (changed.isSome ↔ key ∈ table.keys)
  absorb : ∀ key record, ∃ next, table.absorb key record = .ok next
  merge : ∀ other, ∃ next, table.merge other = .ok next

theorem Represents.isSound {table : IndexedTable} {plain : Table} (represents : table.Represents plain) :
    table.IsSound where
  distinct := represents.inStep.nodup
  index := represents.inStep
  ascending := fun entry _ => entry.2.acks.ascending
  lookup := by
    intro key
    refine ⟨plain.get? key, represents.get?_eq key, ?_, ?_⟩
    · rw [Option.isSome_iff_exists, Table.exists_get?_iff, represents.keys_eq]
    · intro record
      rw [represents.entries]
      exact plain.get?_eq_some_iff key record
  modify := by
    intro key edit
    rw [represents.keys_eq]
    by_cases known : key ∈ plain.keys
    · obtain ⟨next, changed, _⟩ := represents.exists_modify? known edit
      exact ⟨some next, changed, by simp [known]⟩
    · exact ⟨none, represents.modify?_of_not_mem known edit, by simp [known]⟩
  absorb := by
    intro key record
    obtain ⟨next, absorbed, _⟩ := represents.exists_absorb key record
    exact ⟨next, absorbed⟩
  merge := by
    intro other
    obtain ⟨next, merged, _⟩ := represents.exists_merge other
    exact ⟨next, merged⟩

/-- Whatever operations made a table, its index is sound: lookups find the entry of their key and no
operation fails, no key ever loses its place, and tables are equal when they list equal entries in the
same order. -/
theorem isSound_of_reachable {table : IndexedTable} (reachable : Reachable table) :
    table.IsSound ∧
    (∀ later, Relation.ReflTransGen Step table later → ∀ key place,
      table.places.place? key = some place → later.places.place? key = some place) ∧
    (∀ other, Reachable other → ((table == other) = true ↔ table.entries = other.entries)) ∧
    ∀ text, ∃ outcome, ofInterchange text = .ok outcome := by
  have inStep := reachable.inStep
  obtain ⟨plain, represents⟩ := inStep.exists_represents
  refine ⟨represents.isSound, ?_, ?_, ?_⟩
  · intro later steps key place given
    obtain ⟨next, longer⟩ := keys_prefix_of_steps inStep steps
    exact inStep.place?_of_prefix next longer given
  · intro other reached
    exact beq_iff_of_inStep inStep reached.inStep
  · intro text
    obtain ⟨outcome, succeeds, _⟩ := exists_ofInterchange text
    exact ⟨outcome, succeeds⟩

/-- A table of two flows is merged with a copy of itself. -/
theorem place?_of_doubled_table :
    Reachable ((empty.openFlow ⟨3, 1⟩ "0.3").openFlow ⟨1, 2⟩ "0.1") ∧
    ∃ doubled,
      ((empty.openFlow ⟨3, 1⟩ "0.3").openFlow ⟨1, 2⟩ "0.1").merge
        ((empty.openFlow ⟨3, 1⟩ "0.3").openFlow ⟨1, 2⟩ "0.1") = .ok doubled ∧
      doubled.places.place? ⟨1, 2⟩ = some 1 := by
  have reachable : Reachable ((empty.openFlow ⟨3, 1⟩ "0.3").openFlow ⟨1, 2⟩ "0.1") :=
    (Reachable.empty.step (.opened ⟨3, 1⟩ "0.3")).step (.opened ⟨1, 2⟩ "0.1")
  obtain ⟨sound, keeps, _⟩ := isSound_of_reachable reachable
  obtain ⟨doubled, merges⟩ := sound.merge _
  exact ⟨reachable, doubled, merges, keeps doubled (.single (.merged _ merges)) ⟨1, 2⟩ 1 (by decide)⟩

end IndexedTable

end FlowAudit.Flow
