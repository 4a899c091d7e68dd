import FlowAudit.Proofs.Flow.Table

set_option autoImplicit false

/-!
Parts of tables. The flows whose keys are kept make up a table of their own; an operation on a kept flow
does to the part what it does to the whole, and an operation on another flow leaves the part alone.
-/
namespace FlowAudit.Flow.Table

/-- The flows with kept keys, in their order. -/
def restrict (table : Table) (keep : Key → Bool) : Table where
  flows := table.flows.filter fun flow => keep flow.1
  distinct := table.distinct.sublist (List.filter_sublist.map Prod.fst)

section Views

variable (table : Table) (keep : Key → Bool) (key : Key)

theorem keys_restrict : (table.restrict keep).keys = table.keys.filter keep := by
  simp only [keys, restrict, List.filter_map]
  rfl

theorem mem_keys_restrict : key ∈ (table.restrict keep).keys ↔ key ∈ table.keys ∧ keep key = true := by
  rw [keys_restrict, List.mem_filter]

theorem get?_restrict :
    (table.restrict keep).get? key = if keep key then table.get? key else none := by
  simp only [get?, restrict]
  induction table.flows with
  | nil => simp
  | cons flow rest ih =>
    rw [lookup_flow flow.1 key flow.2 rest, List.filter_cons]
    by_cases kept : keep flow.1 = true
    · rw [if_pos kept, lookup_flow flow.1 key flow.2, ih]
      by_cases same : key = flow.1
      · subst same
        simp [kept]
      · simp [same]
    · rw [if_neg kept, ih]
      by_cases same : key = flow.1
      · subst same
        simp [kept]
      · simp [same]

end Views

/-! Operations -/

section Operations

variable {keep : Key → Bool} {key : Key}

theorem ne_of_kept {other : Key} (hidden : keep key = false) (kept : keep other = true) :
    other ≠ key := by
  rintro rfl
  rw [hidden] at kept
  cases kept

/-- Tables that differ in flows that are not kept only have the same part. -/
theorem restrict_congr {first second : Table}
    (keys : first.keys.filter keep = second.keys.filter keep)
    (records : ∀ key, keep key = true → first.get? key = second.get? key) :
    first.restrict keep = second.restrict keep := by
  apply ext_get?
  · rw [keys_restrict, keys_restrict, keys]
  · intro key
    rw [get?_restrict, get?_restrict]
    by_cases kept : keep key = true
    · rw [if_pos kept, if_pos kept, records key kept]
    · rw [if_neg kept, if_neg kept]

theorem restrict_openFlow_of_kept (kept : keep key = true) (table : Table) (start : String) :
    (table.openFlow key start).restrict keep = (table.restrict keep).openFlow key start := by
  apply ext_get?
  · rw [keys_restrict, keys_openFlow, keys_openFlow, keys_restrict]
    by_cases known : key ∈ table.keys <;> simp [known, kept]
  · intro other
    rw [get?_restrict, get?_openFlow, get?_openFlow, get?_restrict]
    by_cases same : other = key
    · subst same
      simp [kept]
    · simp [same]

theorem restrict_openFlow_of_not_kept (hidden : keep key = false) (table : Table) (start : String) :
    (table.openFlow key start).restrict keep = table.restrict keep := by
  apply restrict_congr
  · rw [keys_openFlow]
    split
    · rfl
    · simp [hidden]
  · intro other kept
    rw [get?_openFlow, if_neg (ne_of_kept hidden kept), Option.or_none]

theorem restrict_recordAck_of_kept (kept : keep key = true) (table : Table) (ack : UInt32)
    (time : String) :
    (table.recordAck key ack time).restrict keep = (table.restrict keep).recordAck key ack time := by
  apply ext_get?
  · rw [keys_restrict, keys_recordAck, keys_recordAck, keys_restrict]
  · intro other
    rw [get?_restrict, recordAck, get?_modify, recordAck, get?_modify, get?_restrict]
    by_cases same : other = key
    · subst same
      simp [kept]
    · simp [same]

theorem restrict_recordAck_of_not_kept (hidden : keep key = false) (table : Table) (ack : UInt32)
    (time : String) : (table.recordAck key ack time).restrict keep = table.restrict keep := by
  apply restrict_congr
  · rw [keys_recordAck]
  · intro other kept
    rw [recordAck, get?_modify, if_neg (ne_of_kept hidden kept)]

end Operations

end FlowAudit.Flow.Table
