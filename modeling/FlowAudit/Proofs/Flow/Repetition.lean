import FlowAudit.Proofs.Flow.Observation
import FlowAudit.Proofs.Flow.Table

set_option autoImplicit false

/-!
Acks that are observed more than once. Within one line the last time of an ack number counts, and across
lines the time of the first line (`ofInterchange_of_observes`). One line with all pairs therefore says the
same as a line for each of them only where the first and the last pair for every ack number agree
(`ofInterchange_of_repeated_acks`).
-/
namespace FlowAudit.Flow

open FlowAudit.Text

theorem Timeline.time?_ofPairs (pairs : List (UInt32 × String)) (ack : UInt32) :
    (ofPairs pairs).time? ack = pairs.reverse.lookup ack := by
  induction pairs with
  | nil => rfl
  | cons pair rest ih =>
    have step : ofPairs (pair :: rest) = (ofPairs rest).insert pair.1 pair.2 := rfl
    rw [step, time?_insert_or, ih, List.reverse_cons, List.lookup_append,
      lookup_pair pair.1 ack pair.2, List.lookup_nil]

theorem Record.ackTime?_ofPairs (start : String) (pairs : List (UInt32 × String)) (ack : UInt32) :
    (Record.mk start (.ofPairs pairs)).ackTime? ack = pairs.reverse.lookup ack :=
  Timeline.time?_ofPairs pairs ack

namespace Table

/-- The table has the one flow, with this start and these ack times. -/
structure HoldsOnly (table : Table) (key : Key) (start : String) (acks : UInt32 → Option String) :
    Prop where
  keys : table.keys = [key]
  start : table.start? key = some start
  acks : ∀ ack, table.ackTime? key ack = acks ack

theorem holdsOnly_absorb_empty (key : Key) (record : Record) :
    HoldsOnly (empty.absorb key record) key record.start record.ackTime? where
  keys := by rw [keys_absorb, keys_empty, if_neg List.not_mem_nil, List.nil_append]
  start := by
    rw [start?, get?_absorb, if_pos rfl]
    rfl
  acks := by
    intro ack
    rw [ackTime?, get?_absorb, if_pos rfl]
    rfl

namespace HoldsOnly

variable {table other : Table} {key : Key} {start : String} {acks acks' : UInt32 → Option String}

/-- Another observation adds its times where there were none. -/
theorem absorb (holds : HoldsOnly table key start acks) (record : Record) :
    HoldsOnly (table.absorb key record) key start fun ack => (acks ack).or (record.ackTime? ack) := by
  have known : key ∈ table.keys := holds.keys ▸ List.mem_singleton_self key
  obtain ⟨first, found⟩ := (exists_get?_iff table key).mpr known
  have opened := holds.start
  have times := holds.acks
  simp only [start?, ackTime?, found, Option.map_some, Option.bind_some] at opened times
  refine ⟨?_, ?_, ?_⟩
  · rw [keys_absorb, if_pos known, holds.keys]
  · rw [start?, get?_absorb, found, if_pos rfl, Option.merge_some_some]
    exact opened
  · intro ack
    rw [ackTime?, get?_absorb, found, if_pos rfl, Option.merge_some_some, Option.bind_some,
      Record.ackTime?_absorb, times]

theorem eq_iff (holds : HoldsOnly table key start acks) (holds' : HoldsOnly other key start acks') :
    table = other ↔ ∀ ack, acks ack = acks' ack := by
  constructor
  · rintro rfl ack
    rw [← holds.acks, holds'.acks]
  · intro same
    have keys : table.keys = other.keys := holds.keys.trans holds'.keys.symm
    apply ext_views keys
    · intro asked
      by_cases here : asked = key
      · rw [here, holds.start, holds'.start]
      · have absent : asked ∉ table.keys := by simp [holds.keys, here]
        rw [(start?_eq_none_iff table asked).mpr absent,
          (start?_eq_none_iff other asked).mpr (keys ▸ absent)]
    · intro asked ack
      by_cases here : asked = key
      · rw [here, holds.acks, holds'.acks, same]
      · have absent : asked ∉ table.keys := by simp [holds.keys, here]
        rw [ackTime?_of_not_mem absent, ackTime?_of_not_mem (keys ▸ absent)]

end HoldsOnly

section Reading

variable {key : Key} {start : String}

theorem exists_readLines_eq_ok {rows : List (List Char)} {groups : List (List (UInt32 × String))}
    (observed : List.Forall₂ (fun line pairs => Observes line key start pairs) rows groups)
    {table : Table} {acks : UInt32 → Option String} (holds : HoldsOnly table key start acks)
    (number : Nat) :
    ∃ read, readLines table number rows = .ok read ∧ HoldsOnly read key start fun ack =>
      (acks ack).or (groups.findSome? fun pairs => pairs.reverse.lookup ack) := by
  induction observed generalizing table acks number with
  | nil =>
    refine ⟨table, rfl, holds.keys, holds.start, ?_⟩
    simpa using holds.acks
  | @cons line pairs rest groups first _ ih =>
    obtain ⟨read, reads, known⟩ := ih (holds.absorb ⟨start, Timeline.ofPairs pairs⟩) (number + 1)
    refine ⟨read, ?_, known.keys, known.start, ?_⟩
    · rw [readLines_of_observes first, reads]
    · intro ack
      rw [known.acks, Record.ackTime?_ofPairs, Option.or_assoc, List.findSome?_cons]
      cases pairs.reverse.lookup ack <;> rfl

/-- The first line that has an ack number gives its time, and in this line the last pair that has it. -/
theorem ofInterchange_of_observes {text : List Char} {groups : List (List (UInt32 × String))}
    (filled : groups ≠ [])
    (observed : List.Forall₂ (fun line pairs => Observes line key start pairs) (lines text) groups) :
    ∃ table, ofInterchange text = .ok table ∧ HoldsOnly table key start fun ack =>
      groups.findSome? fun pairs => pairs.reverse.lookup ack := by
  rw [ofInterchange]
  generalize lines text = rows at observed
  cases observed with
  | nil => exact absurd rfl filled
  | @cons line pairs rest groups first others =>
    have opened := holdsOnly_absorb_empty key ⟨start, Timeline.ofPairs pairs⟩
    obtain ⟨table, reads, holds⟩ := exists_readLines_eq_ok others opened 2
    refine ⟨table, ?_, holds.keys, holds.start, ?_⟩
    · rw [readLines_of_observes first, reads]
    · intro ack
      rw [holds.acks, Record.ackTime?_ofPairs, List.findSome?_cons]
      cases pairs.reverse.lookup ack <;> rfl

end Reading

/-- A line for each pair: the first pair for an ack number counts. -/
theorem findSome?_singletons (pairs : List (UInt32 × String)) (ack : UInt32) :
    (pairs.map fun pair => [pair]).findSome? (fun group => group.reverse.lookup ack) =
      pairs.lookup ack := by
  induction pairs with
  | nil => rfl
  | cons pair rest ih =>
    have next := Timeline.lookup_pair pair.1 ack pair.2 rest
    have alone := Timeline.lookup_pair pair.1 ack pair.2 []
    rw [List.map_cons, List.findSome?_cons, ih, List.reverse_singleton, next, alone]
    by_cases same : ack = pair.1 <;> simp [same]

/-- What one line with all pairs says, and what a line for each pair says. The two agree where every ack
number has the same time in the first pair that names it as in the last. -/
theorem ofInterchange_of_repeated_acks {key : Key} {start : String} {pairs : List (UInt32 × String)}
    {whole apart : List Char} (filled : pairs ≠ [])
    (together : List.Forall₂ (fun line pairs => Observes line key start pairs) (lines whole) [pairs])
    (each : List.Forall₂ (fun line pairs => Observes line key start pairs) (lines apart)
      (pairs.map fun pair => [pair])) :
    ∃ last first, ofInterchange whole = .ok last ∧ ofInterchange apart = .ok first ∧
      HoldsOnly last key start (fun ack => pairs.reverse.lookup ack) ∧
      HoldsOnly first key start (fun ack => pairs.lookup ack) ∧
      (last = first ↔ ∀ ack, pairs.reverse.lookup ack = pairs.lookup ack) := by
  obtain ⟨last, reads, holds⟩ := ofInterchange_of_observes (List.cons_ne_nil pairs []) together
  obtain ⟨first, reads', holds'⟩ := ofInterchange_of_observes (by simpa using filled) each
  simp only [findSome?_singletons] at holds'
  have single : (fun ack => [pairs].findSome? fun group => group.reverse.lookup ack) =
      fun ack => pairs.reverse.lookup ack := by
    funext ack
    rw [List.findSome?_singleton]
  rw [single] at holds
  exact ⟨last, first, reads, reads', holds, holds', holds.eq_iff holds'⟩

/-- The second pair for ack 5 counts in one line, and the first where each has a line. -/
theorem ofInterchange_of_ack_in_two_pairs :
    let pairs : List (UInt32 × String) := [(5, "2.0"), (5, "3.0")]
    let whole := observationText ⟨1, 2⟩ "1.0" [pairs]
    let apart := observationText ⟨1, 2⟩ "1.0" (pairs.map fun pair => [pair])
    pairs ≠ [] ∧
      List.Forall₂ (fun line pairs => Observes line ⟨1, 2⟩ "1.0" pairs) (lines whole) [pairs] ∧
      List.Forall₂ (fun line pairs => Observes line ⟨1, 2⟩ "1.0" pairs) (lines apart)
        (pairs.map fun pair => [pair]) ∧
      ∃ last first, ofInterchange whole = .ok last ∧ ofInterchange apart = .ok first ∧
        last.ackTime? ⟨1, 2⟩ 5 = some "3.0" ∧ first.ackTime? ⟨1, 2⟩ 5 = some "2.0" ∧ last ≠ first := by
  intro pairs whole apart
  have filled : pairs ≠ [] := List.cons_ne_nil _ _
  have together := observes_observationText ⟨1, 2⟩ "1.0" [pairs]
  have each := observes_observationText ⟨1, 2⟩ "1.0" (pairs.map fun pair => [pair])
  obtain ⟨last, first, reads, reads', holds, holds', agree⟩ :=
    ofInterchange_of_repeated_acks filled together each
  refine ⟨filled, together, each, last, first, reads, reads', holds.acks 5, holds'.acks 5, ?_⟩
  intro same
  exact absurd (agree.mp same 5) (by decide)

/-- A record that names an ack twice is not read as its two halves are, line by line. -/
theorem ofInterchange_ack_twice_in_line :
    let whole :=
      "1-2\t\x7b\"s\":\"1.0\",\"acks\":\x7b\"5\":\"2.0\",\"5\":\"3.0\"\x7d\x7d\n".toList
    let apart := ("1-2\t\x7b\"s\":\"1.0\",\"acks\":\x7b\"5\":\"2.0\"\x7d\x7d\n" ++
      "1-2\t\x7b\"s\":\"1.0\",\"acks\":\x7b\"5\":\"3.0\"\x7d\x7d\n").toList
    (ofInterchange whole).map (fun table => table.ackTime? ⟨1, 2⟩ 5) = .ok (some "3.0") ∧
      (ofInterchange apart).map (fun table => table.ackTime? ⟨1, 2⟩ 5) = .ok (some "2.0") := by
  intro whole apart
  constructor
  · decide +kernel
  · decide +kernel

end Table

end FlowAudit.Flow
