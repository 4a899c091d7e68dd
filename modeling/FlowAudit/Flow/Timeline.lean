set_option autoImplicit false

/-!
Timelines of acknowledgements. A timeline maps ack numbers to the text of the time at which each
was seen; the time that was written first stays (`time?_insert`).
-/
namespace FlowAudit.Flow

/-- Ack numbers and their times, ascending by number. -/
structure Timeline where
  entries : List (UInt32 × String)
  ascending : entries.Pairwise fun earlier later => earlier.1 < later.1
  deriving DecidableEq, Repr

namespace Timeline

/-- Puts an entry in its place unless its ack number is there already. -/
def insertEntry (ack : UInt32) (time : String) : List (UInt32 × String) → List (UInt32 × String)
  | [] => [(ack, time)]
  | entry :: rest =>
      if ack < entry.1 then (ack, time) :: entry :: rest
      else if ack = entry.1 then entry :: rest
      else entry :: insertEntry ack time rest

theorem mem_insertEntry {ack : UInt32} {time : String} {entries : List (UInt32 × String)}
    {entry : UInt32 × String} (inside : entry ∈ insertEntry ack time entries) :
    entry = (ack, time) ∨ entry ∈ entries := by
  induction entries with
  | nil => simpa [insertEntry] using inside
  | cons head rest ih =>
    simp only [insertEntry] at inside
    split at inside
    · simpa using inside
    · split at inside
      · exact Or.inr inside
      · rcases List.mem_cons.mp inside with rfl | deeper
        · exact Or.inr List.mem_cons_self
        · exact (ih deeper).imp_right (List.mem_cons_of_mem _)

theorem ascending_insertEntry (ack : UInt32) (time : String) {entries : List (UInt32 × String)}
    (sorted : entries.Pairwise fun earlier later => earlier.1 < later.1) :
    (insertEntry ack time entries).Pairwise fun earlier later => earlier.1 < later.1 := by
  induction entries with
  | nil => simp [insertEntry]
  | cons head rest ih =>
    have parts := List.pairwise_cons.mp sorted
    simp only [insertEntry]
    split
    · rename_i before
      refine List.pairwise_cons.mpr ⟨?_, sorted⟩
      intro entry inside
      rcases List.mem_cons.mp inside with rfl | deeper
      · exact before
      · exact UInt32.lt_trans before (parts.1 entry deeper)
    · split
      · exact sorted
      · rename_i notBefore different
        refine List.pairwise_cons.mpr ⟨?_, ih parts.2⟩
        intro entry inside
        rcases mem_insertEntry inside with rfl | deeper
        · exact UInt32.lt_of_le_of_ne (UInt32.not_lt.mp notBefore) fun same => different same.symm
        · exact parts.1 entry deeper

def empty : Timeline := ⟨[], List.Pairwise.nil⟩

def insert (timeline : Timeline) (ack : UInt32) (time : String) : Timeline :=
  ⟨insertEntry ack time timeline.entries, ascending_insertEntry ack time timeline.ascending⟩

def time? (timeline : Timeline) (ack : UInt32) : Option String :=
  timeline.entries.lookup ack

def contains (timeline : Timeline) (ack : UInt32) : Bool :=
  (timeline.time? ack).isSome

/-- Both timelines together; where both have a time, the first one's stays. -/
def union (timeline other : Timeline) : Timeline :=
  other.entries.foldl (fun merged entry => merged.insert entry.1 entry.2) timeline

/-- The timeline of a list of pairs in which the last pair for an ack number counts. -/
def ofPairs (pairs : List (UInt32 × String)) : Timeline :=
  pairs.foldr (fun pair timeline => timeline.insert pair.1 pair.2) empty

theorem lookup_pair (ack other : UInt32) (time : String) (rest : List (UInt32 × String)) :
    ((ack, time) :: rest).lookup other = if other = ack then some time else rest.lookup other := by
  by_cases same : other = ack
  · simp [same]
  · simp [List.lookup_cons, same, beq_eq_false_iff_ne.mpr same]

theorem lookup_eq_none_of_lt {ack : UInt32} {entries : List (UInt32 × String)}
    (later : ∀ entry ∈ entries, ack < entry.1) : entries.lookup ack = none := by
  rw [List.lookup_eq_none_iff]
  intro entry inside
  simpa using UInt32.ne_of_lt (later entry inside)

theorem lookup_insertEntry (ack other : UInt32) (time : String)
    {entries : List (UInt32 × String)}
    (sorted : entries.Pairwise fun earlier later => earlier.1 < later.1) :
    (insertEntry ack time entries).lookup other =
      if other = ack ∧ entries.lookup ack = none then some time else entries.lookup other := by
  induction entries with
  | nil => simp [insertEntry, lookup_pair]
  | cons head rest ih =>
    obtain ⟨headAck, headTime⟩ := head
    have parts := List.pairwise_cons.mp sorted
    simp only [insertEntry]
    split
    · rename_i before
      have absent : ((headAck, headTime) :: rest).lookup ack = none := by
        apply lookup_eq_none_of_lt
        intro entry inside
        rcases List.mem_cons.mp inside with rfl | deeper
        · exact before
        · exact UInt32.lt_trans before (parts.1 entry deeper)
      simp only [absent, and_true]
      rw [lookup_pair ack other]
    · split
      · rename_i same
        subst same
        simp [lookup_pair]
      · rename_i differs
        rw [lookup_pair, ih parts.2, lookup_pair, lookup_pair]
        by_cases found : other = headAck
        · simp [found, Ne.symm differs]
        · rw [if_neg found, if_neg found, if_neg differs]

/-- An insertion adds a time where there was none and changes nothing else. -/
theorem time?_insert (timeline : Timeline) (ack other : UInt32) (time : String) :
    (timeline.insert ack time).time? other =
      if other = ack ∧ timeline.time? ack = none then some time else timeline.time? other :=
  lookup_insertEntry ack other time timeline.ascending

end Timeline

end FlowAudit.Flow
