import FlowAudit.Flow.Timeline

set_option autoImplicit false

/-!
Timelines as maps. A timeline is known by the times that it gives (`ext_time?`), and every operation
on timelines is described by what it does to them.
-/
namespace FlowAudit.Flow.Timeline

@[simp] theorem time?_empty (ack : UInt32) : empty.time? ack = none := rfl

theorem mem_entries_of_lookup {entries : List (UInt32 × String)} {ack : UInt32} {time : String}
    (found : entries.lookup ack = some time) : (ack, time) ∈ entries := by
  obtain ⟨before, after, same, _⟩ := List.lookup_eq_some_iff.mp found
  rw [same]
  simp

theorem lookup_of_mem_entries {entries : List (UInt32 × String)}
    (sorted : entries.Pairwise fun earlier later => earlier.1 < later.1)
    {ack : UInt32} {time : String} (inside : (ack, time) ∈ entries) :
    entries.lookup ack = some time := by
  induction entries with
  | nil => cases inside
  | cons head rest ih =>
    have parts := List.pairwise_cons.mp sorted
    rw [lookup_pair head.1 ack head.2 rest]
    rcases List.mem_cons.mp inside with rfl | deeper
    · rw [if_pos rfl]
    · have before : head.1 < ack := parts.1 _ deeper
      rw [if_neg fun same => UInt32.ne_of_lt before same.symm]
      exact ih parts.2 deeper

theorem mem_entries_iff (timeline : Timeline) (ack : UInt32) (time : String) :
    (ack, time) ∈ timeline.entries ↔ timeline.time? ack = some time :=
  ⟨lookup_of_mem_entries timeline.ascending, mem_entries_of_lookup⟩

theorem nodup_entries (timeline : Timeline) : timeline.entries.Nodup := by
  apply timeline.ascending.imp
  intro earlier later before same
  exact UInt32.ne_of_lt before (congrArg Prod.fst same)

theorem ext_entries {first second : Timeline} (same : first.entries = second.entries) :
    first = second := by
  cases first
  cases second
  simpa only [mk.injEq] using same

/-- The order of the entries leaves no choice once the times are known. -/
theorem ext_time? {first second : Timeline}
    (same : ∀ ack, first.time? ack = second.time? ack) : first = second := by
  have members : ∀ entry, entry ∈ first.entries ↔ entry ∈ second.entries := by
    rintro ⟨ack, time⟩
    rw [mem_entries_iff, mem_entries_iff, same]
  apply ext_entries
  refine List.Perm.eq_of_pairwise ?_ first.ascending second.ascending
    ((List.perm_ext_iff_of_nodup first.nodup_entries second.nodup_entries).mpr members)
  intro earlier later _ _ before after
  exact absurd (UInt32.lt_trans before after) (UInt32.lt_irrefl _)

theorem time?_insert_or (timeline : Timeline) (ack other : UInt32) (time : String) :
    (timeline.insert ack time).time? other =
      (timeline.time? other).or (if other = ack then some time else none) := by
  rw [time?_insert]
  by_cases same : other = ack
  · subst same
    cases timeline.time? other <;> simp
  · simp [same]

theorem time?_foldl_insert (entries : List (UInt32 × String)) (timeline : Timeline)
    (ack : UInt32) :
    (entries.foldl (fun merged entry => merged.insert entry.1 entry.2) timeline).time? ack =
      (timeline.time? ack).or (entries.lookup ack) := by
  induction entries generalizing timeline with
  | nil => simp
  | cons entry rest ih =>
    rw [List.foldl_cons, ih, time?_insert_or, lookup_pair entry.1 ack entry.2 rest, Option.or_assoc]
    by_cases same : ack = entry.1 <;> simp [same]

/-- Of a union the first timeline is asked first. -/
theorem time?_union (timeline other : Timeline) (ack : UInt32) :
    (timeline.union other).time? ack = (timeline.time? ack).or (other.time? ack) :=
  time?_foldl_insert other.entries timeline ack

theorem length_insertEntry (ack : UInt32) (time : String) (entries : List (UInt32 × String))
    (new : entries.lookup ack = none) :
    (insertEntry ack time entries).length = entries.length + 1 := by
  induction entries with
  | nil => rfl
  | cons head rest ih =>
    rw [lookup_pair head.1 ack head.2 rest] at new
    have differs : ack ≠ head.1 := by
      intro same
      simp [same] at new
    rw [if_neg differs] at new
    simp only [insertEntry, if_neg differs]
    split
    · rfl
    · rw [List.length_cons, ih new, List.length_cons]

end FlowAudit.Flow.Timeline
