import FlowAudit.Proofs.Json.Fields
import FlowAudit.Verdict.Snapshot

set_option autoImplicit false

/-!
Documents of snapshots. However a document is spelled, its snapshots are those of its entries in their order,
and one faulty entry refuses all of them (`readDocument?_of_spells`). An entry or its counters may also be a
list, whose items are then known by their places (`readDocument?_of_listed_counters`).
-/
namespace FlowAudit.Verdict.Snapshot

open FlowAudit.Text FlowAudit.Json

/-- The counters of a snapshot under their names in documents. -/
def counters (snapshot : Snapshot) : List (String × UInt64) :=
  [("droppablePkts", snapshot.droppable), ("droppedPkts", snapshot.dropped),
    ("duplicatePkts", snapshot.duplicate), ("notSeenDroppedPkts", snapshot.notSeenDropped),
    ("retransmittedDroppedPkts", snapshot.retransmittedDropped)]

/-- The counters of a snapshot as a list, in the order of their names. -/
def listed (snapshot : Snapshot) : Value :=
  .array (snapshot.counters.map fun counter => .number (decimal counter.2.toNat))

/-- An object that has each counter once, as a plain integer. -/
def HasCounters (value : Value) (snapshot : Snapshot) : Prop :=
  ∀ counter ∈ snapshot.counters, value.HasField counter.1 (.number (decimal counter.2.toNat))

/-- The one field of an entry, under its name or as the only item of a list. -/
def HoldsCounters (entry counters : Value) : Prop :=
  entry.HasField "counters" counters ∨ entry = .array [counters]

def IsEntry (entry : Value) (snapshot : Snapshot) : Prop :=
  ∃ counters, HoldsCounters entry counters ∧ (HasCounters counters snapshot ∨ counters = listed snapshot)

/-- An entry that does not hold counters once, or holds counters of which one is lacking, repeated or no
plain integer in range. Only counters that are the list of a snapshot do without names. -/
inductive IsFaulty : Value → Prop
  | counters {entry : Value} (fault : ∀ counters, ¬HoldsCounters entry counters) : IsFaulty entry
  | counter {entry counters : Value} (held : HoldsCounters entry counters)
      (unlisted : ∀ snapshot, counters ≠ listed snapshot) {name : String} (known : name ∈ fieldNames)
      (fault : ∀ number : UInt64, ¬counters.HasField name (.number (decimal number.toNat))) :
      IsFaulty entry

section Reading

variable {value : Value} {snapshot : Snapshot}

theorem fields?_eq_counters_iff (well : WellSpelled value)
    (noList : ∀ items, value ≠ .array items) :
    value.fields? fieldNames =
        some (snapshot.counters.map fun counter => some (.number (decimal counter.2.toNat))) ↔
      HasCounters value snapshot := by
  have names : fieldNames = snapshot.counters.map Prod.fst := rfl
  rw [Value.fields?_eq_some_iff well noList (by decide), names]
  simp only [List.forall₂_map_left_iff, List.forall₂_map_right_iff, List.forall₂_same]
  constructor
  · rintro ⟨members, rfl, each⟩ counter inside
    exact ⟨members, rfl, each counter inside⟩
  · intro held
    obtain ⟨members, rfl, _⟩ := held _ List.mem_cons_self
    refine ⟨members, rfl, fun counter inside => ?_⟩
    obtain ⟨members', same, values⟩ := held counter inside
    obtain rfl := Value.object.inj same
    exact values

theorem fields?_eq_listed_iff (items : List Value) :
    (Value.array items).fields? fieldNames =
        some (snapshot.counters.map fun counter => some (.number (decimal counter.2.toNat))) ↔
      .array items = listed snapshot := by
  have values : (snapshot.counters.map fun counter => some (.number (decimal counter.2.toNat))) =
      (snapshot.counters.map fun counter => Value.number (decimal counter.2.toNat)).map some :=
    List.map_map.symm
  rw [values, Value.fields?_array_eq_iff, listed, Value.array.injEq]
  exact and_iff_left (List.length_map _)

theorem not_hasCounters_array (items : List Value) : ¬HasCounters (.array items) snapshot :=
  fun held => (held _ List.mem_cons_self).noList items rfl

theorem fields?_eq_some_counters_iff (well : WellSpelled value) :
    value.fields? fieldNames =
        some (snapshot.counters.map fun counter => some (.number (decimal counter.2.toNat))) ↔
      HasCounters value snapshot ∨ value = listed snapshot := by
  by_cases list : ∃ items, value = .array items
  · obtain ⟨items, rfl⟩ := list
    rw [fields?_eq_listed_iff, or_iff_right (not_hasCounters_array items)]
  · have noList : ∀ items, value ≠ .array items := fun items same => list ⟨items, same⟩
    have unlisted : value ≠ listed snapshot := noList _
    rw [fields?_eq_counters_iff well noList, or_iff_left unlisted]

theorem ofJson?_eq_some_iff (well : WellSpelled value) :
    ofJson? value = some snapshot ↔ HasCounters value snapshot ∨ value = listed snapshot := by
  rw [← fields?_eq_some_counters_iff well, ofJson?]
  constructor
  · intro success
    split at success
    · next found =>
      simp only [Option.bind_eq_bind, Option.bind_eq_some_iff, Value.uint64?_eq_some_iff] at success
      obtain ⟨_, rfl, _, rfl, _, rfl, _, rfl, _, rfl, same⟩ := success
      obtain rfl := Option.some.inj same
      exact found
    · cases success
  · intro found
    have read : ∀ number : UInt64, (Value.number (decimal number.toNat)).uint64? = some number :=
      fun number => Value.uint64?_eq_some_iff.mpr rfl
    rw [found]
    simp only [counters, List.map_cons, List.map_nil, read, Option.bind_eq_bind, Option.bind_some,
      Option.pure_def]

theorem fields?_eq_held_iff (well : WellSpelled value) (held : Value) :
    value.fields? ["counters"] = some [some held] ↔ HoldsCounters value held := by
  by_cases list : ∃ items, value = .array items
  · obtain ⟨items, rfl⟩ := list
    have unnamed : ¬(Value.array items).HasField "counters" held := fun field => field.noList items rfl
    have single : (Value.array items).fields? ["counters"] = some ([held].map some) ↔
        items = [held] ∧ [held].length = 1 := Value.fields?_array_eq_iff
    rw [HoldsCounters, or_iff_right unnamed, Value.array.injEq]
    exact single.trans (and_iff_left rfl)
  · have noList : ∀ items, value ≠ .array items := fun items same => list ⟨items, same⟩
    rw [Value.fields?_eq_hasField_iff well noList, HoldsCounters, or_iff_left (noList _)]

theorem HoldsCounters.wellSpelled {held : Value} (holds : HoldsCounters value held)
    (well : WellSpelled value) : WellSpelled held := by
  rcases holds with field | rfl
  · exact field.wellSpelled well
  · exact wellSpelled_array_iff.mp well held List.mem_cons_self

theorem HoldsCounters.read_eq {held : Value} (holds : HoldsCounters value held)
    (well : WellSpelled value) : ofEntry? value = ofJson? held := by
  rw [ ofEntry?, (fields?_eq_held_iff well held).mpr holds]

theorem exists_holdsCounters_of_read (well : WellSpelled value)
    (success : ofEntry? value = some snapshot) : ∃ counters, HoldsCounters value counters := by
  unfold ofEntry? at success
  split at success
  · next counters found => exact ⟨counters, (fields?_eq_held_iff well counters).mp found⟩
  · cases success

theorem ofEntry?_eq_some_iff (well : WellSpelled value) :
    ofEntry? value = some snapshot ↔ IsEntry value snapshot := by
  constructor
  · intro success
    obtain ⟨counters, holds⟩ := exists_holdsCounters_of_read well success
    rw [holds.read_eq well, ofJson?_eq_some_iff (holds.wellSpelled well)] at success
    exact ⟨counters, holds, success⟩
  · rintro ⟨counters, holds, each⟩
    rw [holds.read_eq well, ofJson?_eq_some_iff (holds.wellSpelled well)]
    exact each

/-- Values in range for all names make a snapshot. -/
theorem exists_hasCounters (each : ∀ name ∈ fieldNames, ∃ number : UInt64,
    value.HasField name (.number (decimal number.toNat))) : ∃ snapshot, HasCounters value snapshot := by
  simp only [fieldNames, List.forall_mem_cons, List.not_mem_nil, false_implies, implies_true,
    and_true] at each
  obtain ⟨⟨droppable, first⟩, ⟨dropped, second⟩, ⟨duplicate, third⟩, ⟨notSeen, fourth⟩,
    ⟨retransmitted, fifth⟩⟩ := each
  refine ⟨⟨droppable, dropped, duplicate, notSeen, retransmitted⟩, ?_⟩
  simp only [HasCounters, counters, List.forall_mem_cons, List.not_mem_nil, false_implies,
    implies_true, and_true]
  exact ⟨first, second, third, fourth, fifth⟩

theorem ofEntry?_eq_none_iff (well : WellSpelled value) : ofEntry? value = none ↔ IsFaulty value := by
  rw [Option.eq_none_iff_forall_ne_some]
  simp only [ne_eq, ofEntry?_eq_some_iff well]
  constructor
  · intro unread
    by_cases holds : ∃ counters, HoldsCounters value counters
    · obtain ⟨counters, held⟩ := holds
      have unlisted : ∀ snapshot, counters ≠ listed snapshot := fun snapshot same =>
        unread snapshot ⟨counters, held, Or.inr same⟩
      have lacking : ∃ name ∈ fieldNames, ∀ number : UInt64,
          ¬counters.HasField name (.number (decimal number.toNat)) := by
        by_contra sound
        push Not at sound
        obtain ⟨snapshot, each⟩ := exists_hasCounters sound
        exact unread snapshot ⟨counters, held, Or.inl each⟩
      obtain ⟨name, known, fault⟩ := lacking
      exact .counter held unlisted known fault
    · exact .counters fun counters held => holds ⟨counters, held⟩
  · rintro faulty snapshot ⟨counters, holds, each⟩
    cases faulty with
    | counters fault => exact fault counters holds
    | counter held unlisted known fault =>
      have same := ((fields?_eq_held_iff well _).mpr held).symm.trans
        ((fields?_eq_held_iff well _).mpr holds)
      obtain rfl : _ = counters := by simpa using same
      obtain ⟨counter, inside, rfl⟩ : ∃ counter ∈ snapshot.counters, counter.1 = _ :=
        List.mem_map.mp known
      rcases each with each | same
      · exact fault counter.2 (each counter inside)
      · exact unlisted snapshot same

/-- A document with one list of snapshots is read as the list that its entries make, and is refused just
when one of them is faulty. Without a list there are no snapshots. -/
theorem readDocument?_of_spells {document : Value} {text : List Char}
    (spelled : Spells document text) :
    (∀ entries, document.HasField "snapshots" (.array entries) →
      (∀ snapshots, readDocument? text = some snapshots ↔ List.Forall₂ IsEntry entries snapshots) ∧
      (readDocument? text = none ↔ ∃ entry ∈ entries, IsFaulty entry)) ∧
    (document.LacksField "snapshots" → readDocument? text = some []) := by
  have well := wellSpelled_of_spells spelled
  constructor
  · intro entries held
    have items := wellSpelled_array_iff.mp (held.wellSpelled well)
    have read : readDocument? text = entries.mapM ofEntry? := by
      rw [readDocument?, parse?_of_spells spelled, Option.bind_some, listOfJson?, held.fields?_eq well]
    constructor
    · intro snapshots
      rw [read, mapM_eq_some_iff]
      exact forall₂_congr_of_mem fun entry inside snapshot => ofEntry?_eq_some_iff (items entry inside)
    · rw [read, mapM_eq_none_iff]
      exact exists_congr fun entry => and_congr_right fun inside => ofEntry?_eq_none_iff (items entry inside)
  · intro lacks
    have found := (Value.fields?_eq_lacksField_iff well lacks.noList).mpr lacks
    rw [readDocument?, parse?_of_spells spelled, Option.bind_some, listOfJson?, found]

end Reading

/-- The members are out of order, one key is escaped, a counter is as large as it can be, and other members
hold a number and a string that nothing could be made of. -/
theorem readDocument?_of_disordered_members :
    let text := " \x7b\"snapshots\":[\x7b\"counters\":\x7b\"droppedPkts\":50,".toList ++
      "\"x\":[\x7b\"y\":-1e999\x7d],".toList ++
      "\"d\\u0072oppablePkts\":18446744073709551615,\"duplicatePkts\":1,".toList ++
      "\"retransmittedDroppedPkts\":0,\"notSeenDroppedPkts\":10\x7d,\"time\":2.5\x7d],".toList ++
      "\"flow\":\"\\ud800\"\x7d\n".toList
    readDocument? text = some [⟨18446744073709551615, 50, 1, 10, 0⟩] ∧
      readDocument? "\x7b\x7d".toList = some [] ∧
      readDocument? "\x7b\"snapshots\":[\x7b\x7d]\x7d".toList = none := by
  intro text
  let counters : Value := .object [("droppedPkts".toList, .number "50".toList),
    ("x".toList, .array [.object [("y".toList, .number "-1e999".toList)]]),
    ("d\\u0072oppablePkts".toList, .number "18446744073709551615".toList),
    ("duplicatePkts".toList, .number "1".toList), ("retransmittedDroppedPkts".toList, .number "0".toList),
    ("notSeenDroppedPkts".toList, .number "10".toList)]
  let entry : Value := .object [("counters".toList, counters), ("time".toList, .number "2.5".toList)]
  let document : Value := .object [("snapshots".toList, .array [entry]),
    ("flow".toList, .string "\\ud800".toList)]
  have well : WellSpelled document := by
    simp only [document, entry, counters, wellSpelled_object_iff, wellSpelled_array_iff,
      wellSpelled_number_iff, wellSpelled_string_iff, List.forall_mem_cons, List.not_mem_nil,
      false_implies, implies_true, and_true]
    decide +kernel
  have same : text = [' '] ++ compact document ++ ['\n'] := by decide +kernel
  have front : IsBlank [' '] := by simp [IsBlank, Json.isBlank]
  have back : IsBlank ['\n'] := by simp [IsBlank, Json.isBlank]
  have spelled : Spells document text := same ▸ Spells.blanks front (spells_compact well) back
  have listed : document.HasField "snapshots" (.array [entry]) :=
    (Value.fields?_eq_hasField_iff well (Value.object_ne_array _)).mp rfl
  have wellEntry := wellSpelled_array_iff.mp (listed.wellSpelled well) entry List.mem_cons_self
  have each : IsEntry entry ⟨18446744073709551615, 50, 1, 10, 0⟩ := by
    rw [← ofEntry?_eq_some_iff wellEntry]
    decide +kernel
  have bare : Spells (.object []) "\x7b\x7d".toList := Spells.emptyObject isBlank_nil
  have lacks : (Value.object []).LacksField "snapshots" := ⟨[], rfl, HasValues.nil⟩
  have lone : WellSpelled (.object [("snapshots".toList, .array [.object []])]) := by
    simp only [wellSpelled_object_iff, wellSpelled_array_iff, List.forall_mem_cons, List.not_mem_nil,
      false_implies, implies_true, and_true]
    decide +kernel
  have empty : WellSpelled (.object []) := wellSpelled_object_iff.mpr (by simp)
  have faulty : IsFaulty (.object []) := by
    rw [← ofEntry?_eq_none_iff empty]
    rfl
  have single : (Value.object [("snapshots".toList, .array [.object []])]).HasField "snapshots"
      (.array [.object []]) :=
    (Value.fields?_eq_hasField_iff lone (Value.object_ne_array _)).mp rfl
  refine ⟨?_, (readDocument?_of_spells bare).2 lacks, ?_⟩
  · exact (((readDocument?_of_spells spelled).1 _ listed).1 _).mpr (.cons each .nil)
  · exact ((readDocument?_of_spells (spells_compact lone)).1 _ single).2.mpr
      ⟨_, List.mem_cons_self, faulty⟩

/-- An entry that is a list has no field of counters, and counters that are a list have none of the five
fields. Either is read all the same, each item by its place. -/
theorem readDocument?_of_listed_counters :
    let counters : Value := .array (["10", "2", "0", "1", "1"].map fun digits => .number digits.toList)
    let document := fun entry : Value => Value.object [("snapshots".toList, .array [entry])]
    let placed := "\x7b\"snapshots\":[[[10,2,0,1,1]]]\x7d".toList
    let named := "\x7b\"snapshots\":[\x7b\"counters\":[10,2,0,1,1]\x7d]\x7d".toList
    (Spells (document (.array [counters])) placed ∧
      (∀ held, ¬(Value.array [counters]).HasField "counters" held) ∧
      readDocument? placed = some [⟨10, 2, 0, 1, 1⟩]) ∧
    Spells (document (.object [("counters".toList, counters)])) named ∧
      (∀ name ∈ fieldNames, ∀ held, ¬counters.HasField name held) ∧
      readDocument? named = some [⟨10, 2, 0, 1, 1⟩] := by
  intro counters document placed named
  have well : WellSpelled counters := by
    simp only [counters, List.map_cons, List.map_nil, wellSpelled_array_iff, wellSpelled_number_iff,
      List.forall_mem_cons, List.not_mem_nil, false_implies, implies_true, and_true]
    decide +kernel
  have wellDocument : ∀ entry, WellSpelled entry → WellSpelled (document entry) := by
    intro entry spelled
    simp only [document, wellSpelled_object_iff, wellSpelled_array_iff, List.forall_mem_cons,
      List.not_mem_nil, false_implies, implies_true, and_true]
    exact ⟨by decide +kernel, spelled⟩
  have wellNamed : WellSpelled (.object [("counters".toList, counters)]) := by
    simp only [wellSpelled_object_iff, List.forall_mem_cons, List.not_mem_nil, false_implies,
      implies_true, and_true]
    exact ⟨by decide +kernel, well⟩
  have wellPlaced : WellSpelled (.array [counters]) := wellSpelled_array_iff.mpr (by simpa using well)
  have first : compact (document (.array [counters])) = placed := by decide +kernel
  have second : compact (document (.object [("counters".toList, counters)])) = named := by
    decide +kernel
  refine ⟨⟨first ▸ spells_compact (wellDocument _ wellPlaced), ?_, by decide +kernel⟩,
    second ▸ spells_compact (wellDocument _ wellNamed), ?_, by decide +kernel⟩
  · intro held field
    exact field.noList [counters] rfl
  · intro name _ held field
    exact field.noList _ rfl

end FlowAudit.Verdict.Snapshot
