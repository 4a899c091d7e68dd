import FlowAudit.Proofs.Flow.Table

set_option autoImplicit false

/-!
The algebra of merging. Merging is associative, the empty table is neutral on both sides, and a table
that has been merged in adds nothing when it comes again; the order of the flows is part of these
equations. `eq_merge_iff` says that a merged table is known flow by flow. A table that another one extends
adds nothing to it on either side (`merge_grown`, `grown_merge`).
-/
namespace FlowAudit.Flow.Table

/-- What two tables know together, where the first one's word counts. -/
structure IsUnion (first second merged : Table) : Prop where
  keys : merged.keys = first.keys ++ second.keys.filter fun key => key ∉ first.keys
  shared : ∀ key known other, first.get? key = some known → second.get? key = some other →
    ∃ record, merged.get? key = some record ∧ record.start = known.start ∧
      ∀ ack, record.ackTime? ack = (known.ackTime? ack).or (other.ackTime? ack)
  onlyFirst : ∀ key, key ∉ second.keys → merged.get? key = first.get? key
  onlySecond : ∀ key, key ∉ first.keys → merged.get? key = second.get? key

theorem isUnion_merge (first second : Table) : IsUnion first second (first.merge second) where
  keys := keys_merge first second
  shared := by
    intro key known other left right
    refine ⟨known.absorb other, ?_, rfl, Record.ackTime?_absorb known other⟩
    rw [get?_merge, left, right, Option.merge_some_some]
  onlyFirst := by
    intro key absent
    rw [get?_merge, (get?_eq_none_iff second key).mpr absent, Option.merge_none_right]
  onlySecond := by
    intro key absent
    rw [get?_merge, (get?_eq_none_iff first key).mpr absent, Option.merge_none_left]

/-- Two tables leave no choice for their union. -/
theorem IsUnion.unique {first second merged merged' : Table} (one : IsUnion first second merged)
    (other : IsUnion first second merged') : merged = merged' := by
  apply ext_get? (one.keys.trans other.keys.symm)
  intro key
  cases left : first.get? key with
  | none =>
    have absent := (get?_eq_none_iff first key).mp left
    rw [one.onlySecond key absent, other.onlySecond key absent]
  | some known =>
    cases right : second.get? key with
    | none =>
      have absent := (get?_eq_none_iff second key).mp right
      rw [one.onlyFirst key absent, other.onlyFirst key absent]
    | some late =>
      obtain ⟨record, found, start, acks⟩ := one.shared key known late left right
      obtain ⟨record', found', start', acks'⟩ := other.shared key known late left right
      rw [found, found']
      apply congrArg some
      apply Record.ext_views (start.trans start'.symm)
      intro ack
      rw [acks, acks']

theorem eq_merge_iff (first second merged : Table) :
    merged = first.merge second ↔ IsUnion first second merged := by
  constructor
  · rintro rfl
    exact isUnion_merge first second
  · intro union
    exact union.unique (isUnion_merge first second)

theorem mem_keys_merge (first second : Table) (key : Key) :
    key ∈ (first.merge second).keys ↔ key ∈ first.keys ∨ key ∈ second.keys := by
  rw [keys_merge, List.mem_append, List.mem_filter, decide_eq_true_eq]
  by_cases known : key ∈ first.keys <;> simp [known]

theorem merge_empty (table : Table) : table.merge empty = table := rfl

theorem merge_assoc (first second third : Table) :
    (first.merge second).merge third = first.merge (second.merge third) := by
  apply ext_views
  · -- A late key is new to both earlier tables when it is new to the second and then to the first.
    have late : third.keys.filter (fun key => key ∉ (first.merge second).keys) =
        (third.keys.filter fun key => key ∉ second.keys).filter fun key => key ∉ first.keys := by
      rw [List.filter_filter]
      apply List.filter_congr
      intro key _
      simp [mem_keys_merge]
    rw [keys_merge (first.merge second), late, keys_merge first (second.merge third),
      keys_merge first second, keys_merge second third, List.filter_append, List.append_assoc]
  · intro key
    simp only [start?_merge, Option.or_assoc]
  · intro key ack
    simp only [ackTime?_merge, Option.or_assoc]

theorem merge_merge_self (first second : Table) :
    (first.merge second).merge first = first.merge second := by
  have again : ∀ known late : Option String, (known.or late).or known = known.or late := by
    intro known late
    cases known <;> cases late <;> rfl
  apply ext_views
  · have nothing : first.keys.filter (fun key => key ∉ (first.merge second).keys) = [] := by
      rw [List.filter_eq_nil_iff]
      intro key inside
      simp [mem_keys_merge, inside]
    rw [keys_merge (first.merge second), nothing, List.append_nil]
  · intro key
    simp only [start?_merge, again]
  · intro key ack
    simp only [ackTime?_merge, again]

theorem merge_self (table : Table) : table.merge table = table :=
  merge_merge_self table empty

theorem foldl_merge (table : Table) (tables : List Table) :
    tables.foldl merge table = table.merge (tables.foldl merge empty) := by
  induction tables generalizing table with
  | nil => rfl
  | cons next rest ih =>
    rw [List.foldl_cons, ih (table.merge next), List.foldl_cons, ih (empty.merge next), empty_merge,
      merge_assoc]

/-- Merged tables hold all that each of them knows. -/
theorem foldl_merge_of_mem {tables : List Table} {table : Table} (inside : table ∈ tables) :
    (tables.foldl merge empty).merge table = tables.foldl merge empty := by
  obtain ⟨before, after, rfl⟩ := List.append_of_mem inside
  rw [List.foldl_append, List.foldl_cons, foldl_merge, merge_assoc, merge_assoc,
    ← merge_assoc table, merge_merge_self, merge_assoc]

/-- A table that comes again can be left out, whatever stands between. -/
theorem foldl_merge_repeated {before after : List Table} {table : Table} (inside : table ∈ before) :
    (before ++ table :: after).foldl merge empty = (before ++ after).foldl merge empty := by
  rw [List.foldl_append, List.foldl_cons, foldl_merge_of_mem inside, List.foldl_append]

/-! Growth -/

/-- The grown table has all that is known, and puts its other flows after the known ones. -/
structure Extends (known grown : Table) : Prop where
  keys : known.keys <+: grown.keys
  starts : ∀ key start, known.start? key = some start → grown.start? key = some start
  acks : ∀ key ack time, known.ackTime? key ack = some time → grown.ackTime? key ack = some time

theorem Extends.refl (table : Table) : Extends table table :=
  ⟨List.prefix_rfl, fun _ _ same => same, fun _ _ _ same => same⟩

theorem Extends.trans {first second third : Table} (left : Extends first second)
    (right : Extends second third) : Extends first third where
  keys := left.keys.trans right.keys
  starts key start known := right.starts key start (left.starts key start known)
  acks key ack time known := right.acks key ack time (left.acks key ack time known)

theorem or_eq_right {known grown : Option String}
    (kept : ∀ text, known = some text → grown = some text) : known.or grown = grown := by
  cases known with
  | none => rfl
  | some text => exact (kept text rfl).symm

theorem or_eq_left {known grown : Option String}
    (kept : ∀ text, known = some text → grown = some text) : grown.or known = grown := by
  cases known with
  | none => exact Option.or_none
  | some text =>
    rw [kept text rfl]
    rfl

/-- What is known already adds nothing before the grown table. -/
theorem Extends.merge_grown {known grown : Table} (growth : Extends known grown) :
    known.merge grown = grown := by
  apply ext_views
  · obtain ⟨late, whole⟩ := growth.keys
    have distinct : (known.keys ++ late).Nodup := whole ▸ grown.distinct
    have apart := (List.nodup_append.mp distinct).2.2
    have old : known.keys.filter (fun key => key ∉ known.keys) = [] := by
      rw [List.filter_eq_nil_iff]
      intro key inside
      simpa using inside
    have new : late.filter (fun key => key ∉ known.keys) = late := by
      rw [List.filter_eq_self]
      intro key inside
      have absent : key ∉ known.keys := fun again => apart key again key inside rfl
      simpa using absent
    rw [keys_merge, ← whole, List.filter_append, old, new, List.nil_append]
  · intro key
    rw [start?_merge]
    exact or_eq_right (growth.starts key)
  · intro key ack
    rw [ackTime?_merge]
    exact or_eq_right (growth.acks key ack)

/-- What is known already adds nothing after the grown table. -/
theorem Extends.grown_merge {known grown : Table} (growth : Extends known grown) :
    grown.merge known = grown := by
  apply ext_views
  · have nothing : known.keys.filter (fun key => key ∉ grown.keys) = [] := by
      rw [List.filter_eq_nil_iff]
      intro key inside
      simpa using growth.keys.subset inside
    rw [keys_merge, nothing, List.append_nil]
  · intro key
    rw [start?_merge]
    exact or_eq_left (growth.starts key)
  · intro key ack
    rw [ackTime?_merge]
    exact or_eq_left (growth.acks key ack)

theorem extends_openFlow (table : Table) (key : Key) (start : String) :
    Extends table (table.openFlow key start) where
  keys := by
    rw [keys_openFlow]
    split
    · exact List.prefix_rfl
    · exact List.prefix_append table.keys [key]
  starts := by
    intro other first known
    rw [start?_openFlow, known, Option.some_or]
  acks := by
    intro other ack time known
    rwa [ackTime?_openFlow]

theorem extends_recordAck (table : Table) (key : Key) (ack : UInt32) (time : String) :
    Extends table (table.recordAck key ack time) where
  keys := by
    simp only [keys_recordAck, List.prefix_rfl]
  starts := by
    intro other start known
    rwa [start?_recordAck]
  acks := by
    intro other number first known
    rw [ackTime?_recordAck, known, Option.some_or]

/-- Tables are a left-regular band under merging, with the order of flows part of equality. -/
theorem merge_leftRegularBand :
    (∀ first second third : Table,
      (first.merge second).merge third = first.merge (second.merge third)) ∧
    (∀ table : Table, empty.merge table = table ∧ table.merge empty = table) ∧
    (∀ table : Table, table.merge table = table) ∧
    (∀ first second : Table, (first.merge second).merge first = first.merge second) ∧
    (∀ first second merged : Table,
      merged = first.merge second ↔ IsUnion first second merged) := by
  refine ⟨merge_assoc, ?_, merge_self, merge_merge_self, eq_merge_iff⟩
  intro table
  exact ⟨empty_merge table, merge_empty table⟩

end FlowAudit.Flow.Table
