import FlowAudit.Flow.Interchange
import FlowAudit.Proofs.Attempts
import FlowAudit.Proofs.Flow.Key
import FlowAudit.Proofs.Json.Printer

set_option autoImplicit false

/-!
Lines that observe a flow. Such a line names the flow and spells, in any way that JSON allows, when it was
opened and a list of acks with their times; reading gives the timeline in which the last pair of the
list counts (`readRecordLine_of_observes`). `observationLine` is the way without blanks.
-/
namespace FlowAudit.Flow

open FlowAudit.Text FlowAudit.Json

/-- The members spell the pairs one after the other, an ack number by its canonical numeral. -/
def SpellsPairs (members : List (List Char × Value)) (pairs : List (UInt32 × String)) : Prop :=
  List.Forall₂ (fun member pair =>
    member.1 = decimal pair.1.toNat ∧ member.2.text? = some pair.2) members pairs

/-- The value holds the start of a flow and an object that spells the pairs. -/
def SpellsRecord (value : Value) (start : String) (pairs : List (UInt32 × String)) : Prop :=
  ∃ opened members, value.fields? ["s", "acks"] = some [some opened, some (.object members)] ∧
    opened.text? = some start ∧ SpellsPairs members pairs

/-- The line is a text for the key, a tab and a JSON text for the record. -/
def Observes (line : List Char) (key : Key) (start : String) (pairs : List (UInt32 × String)) : Prop :=
  ∃ name json value, line = name ++ '\t' :: json ∧ key.IsSpelled name ∧ Spells value json ∧
    SpellsRecord value start pairs

/-! Reading -/

theorem mapM_of_spellsPairs {members : List (List Char × Value)} {pairs : List (UInt32 × String)}
    (spelled : SpellsPairs members pairs) :
    members.mapM (fun member => do
      let ack ← Value.uint32? (.number member.1)
      let time ← member.2.text?
      return (ack, time)) = some pairs := by
  refine mapM_eq_some_iff.mpr (spelled.imp ?_)
  intro member pair here
  rw [here.1, here.2, uint32?_decimal]
  rfl

theorem ofJson?_of_spellsRecord {value : Value} {start : String} {pairs : List (UInt32 × String)}
    (spelled : SpellsRecord value start pairs) :
    Record.ofJson? value = some ⟨start, Timeline.ofPairs pairs⟩ := by
  obtain ⟨opened, members, fields, text, each⟩ := spelled
  have acks : Timeline.ofJson? (.object members) = some (Timeline.ofPairs pairs) := by
    rw [Timeline.ofJson?, mapM_of_spellsPairs each, Option.map_some]
  simp only [Record.ofJson?, fields, text, acks, Option.bind_eq_bind, Option.bind_some,
    Option.pure_def]

section Lines

variable {line : List Char} {key : Key} {start : String} {pairs : List (UInt32 × String)}

/-- The end of the line is dropped before the JSON text is read; only blanks are lost with it. -/
theorem readRecordLine_of_observes (observed : Observes line key start pairs) :
    readRecordLine line = .ok (key, ⟨start, Timeline.ofPairs pairs⟩) := by
  obtain ⟨name, json, value, rfl, spelled, text, record⟩ := observed
  obtain ⟨front, last, back, rfl, visible, blank, core⟩ := text.exists_core
  have kept : ∀ char ∈ (name ++ '\t' :: (front ++ [last])).getLast?, isLineEnd char = false := by
    intro char ends
    rw [← List.cons_append, ← List.append_assoc, List.getLast?_concat] at ends
    have same : last = char := Option.some.inj ends
    simp only [isLineEnd, Bool.or_eq_false_iff, beq_eq_false_iff_ne, ← same]
    constructor <;> (rintro rfl; exact absurd visible (by decide))
  have rest : IsBlank (back.rdropWhile isLineEnd) := by
    intro char inside
    exact blank char ((List.rdropWhile_prefix isLineEnd back).subset inside)
  have shape : ((name ++ '\t' :: (front ++ [last] ++ back)).reverse.dropWhile isLineEnd).reverse =
      name ++ '\t' :: (front ++ [last] ++ back.rdropWhile isLineEnd) := by
    have dropped := rdropWhile_append kept back
    simpa only [List.rdropWhile, List.append_assoc, List.cons_append] using dropped
  have tab : '\t' ∉ name := spelled.not_mem (by decide) (by decide) rfl
  have named : Key.read? name = some key := (Key.read?_eq_some_iff _ _).mpr spelled
  have parsed := parse?_of_spells (Spells.blanks isBlank_nil core rest)
  rw [List.nil_append] at parsed
  simp only [readRecordLine, shape, cut_append tab, named, parsed, Option.bind_some,
    ofJson?_of_spellsRecord record]

theorem isEmpty_trim_of_observes (observed : Observes line key start pairs) :
    (trim line).isEmpty = false := by
  obtain ⟨name, json, value, rfl, spelled, _⟩ := observed
  have hyphen : '-' ∈ name ++ '\t' :: json := List.mem_append_left _ spelled.hyphen_mem
  exact List.isEmpty_eq_false_iff.mpr (List.ne_nil_of_mem (mem_trim hyphen rfl))

theorem Table.readLines_of_observes (observed : Observes line key start pairs) (table : Table)
    (number : Nat) (rest : List (List Char)) :
    readLines table number (line :: rest) =
      readLines (table.absorb key ⟨start, Timeline.ofPairs pairs⟩) (number + 1) rest := by
  have full : ¬(trim line).isEmpty = true := by
    rw [isEmpty_trim_of_observes observed]
    decide
  rw [readLines, if_neg full, readRecordLine_of_observes observed]

end Lines

/-! Writing -/

def pairsJson (pairs : List (UInt32 × String)) : Value :=
  .object (pairs.map fun pair => (decimal pair.1.toNat, .ofText pair.2))

def observationJson (start : String) (pairs : List (UInt32 × String)) : Value :=
  .object [Value.member "s" (.ofText start), Value.member "acks" (pairsJson pairs)]

/-- The line that observes the pairs in their order, without its line feed. -/
def observationLine (key : Key) (start : String) (pairs : List (UInt32 × String)) : List Char :=
  key.spelling ++ '\t' :: compact (observationJson start pairs)

section Writing

variable (key : Key) (start : String) (pairs : List (UInt32 × String))

theorem wellSpelled_pairsJson : WellSpelled (pairsJson pairs) := by
  refine wellSpelled_object_iff.mpr (List.forall_mem_map.mpr ?_)
  intro pair _
  exact ⟨Quoted.isSpelling_decimal _, WellSpelled.string (Quoted.isSpelling_spell _)⟩

theorem wellSpelled_observationJson : WellSpelled (observationJson start pairs) := by
  have opened : WellSpelled (.ofText start) := WellSpelled.string (Quoted.isSpelling_spell _)
  have acks := wellSpelled_pairsJson pairs
  simp [observationJson, wellSpelled_object_iff, Value.member, Quoted.isSpelling_spell, opened, acks]

theorem fields?_observationJson :
    (observationJson start pairs).fields? ["s", "acks"] =
      some [some (.ofText start), some (pairsJson pairs)] := by
  have named : [Value.member "s" (.ofText start), Value.member "acks" (pairsJson pairs)].mapM
      (fun (member : List Char × Value) => (Quoted.meaning? member.1).map (·, member.2)) =
      some [(['s'], .ofText start), (['a', 'c', 'k', 's'], pairsJson pairs)] := by
    simp [Value.member, Quoted.meaning?_spell]
  simp only [observationJson, Value.fields?, named]
  rfl

theorem spellsRecord_observationJson : SpellsRecord (observationJson start pairs) start pairs := by
  refine ⟨_, _, fields?_observationJson start pairs, text?_ofText start, ?_⟩
  refine List.forall₂_map_left_iff.mpr (List.forall₂_same.mpr ?_)
  intro pair _
  exact ⟨rfl, text?_ofText pair.2⟩

theorem observes_observationLine : Observes (observationLine key start pairs) key start pairs :=
  ⟨key.spelling, _, _, rfl, key.isSpelled_spelling, spells_compact (wellSpelled_observationJson start pairs),
    spellsRecord_observationJson start pairs⟩

theorem lineFeed_not_mem_observationLine : '\n' ∉ observationLine key start pairs := by
  have name : '\n' ∉ key.spelling := key.isSpelled_spelling.not_mem (by decide) (by decide) rfl
  have json : '\n' ∉ compact (observationJson start pairs) := by
    intro inside
    have visible := visible_of_mem_compact (wellSpelled_observationJson start pairs) '\n' inside
    exact absurd visible (by decide)
  simp [observationLine, name, json]

theorem getLast?_observationLine : (observationLine key start pairs).getLast? = some '}' := by
  have shape : observationLine key start pairs = (key.spelling ++ '\t' :: '{' ::
      compactMembers [Value.member "s" (.ofText start), Value.member "acks" (pairsJson pairs)]) ++
        ['}'] := by
    simp [observationLine, observationJson, compact]
  rw [shape, List.getLast?_concat]

end Writing

theorem lines_observationLines {rows : List (List Char)}
    (written : ∀ row ∈ rows, ∃ key start pairs, row = observationLine key start pairs) :
    lines (rows.flatMap (· ++ ['\n'])) = rows := by
  apply lines_flatMap
  · intro row inside
    obtain ⟨key, start, pairs, rfl⟩ := written row inside
    exact lineFeed_not_mem_observationLine key start pairs
  · intro row inside
    obtain ⟨key, start, pairs, rfl⟩ := written row inside
    rw [getLast?_observationLine]
    decide

/-- A text that observes one flow, with a line for each group of pairs. -/
def observationText (key : Key) (start : String) (groups : List (List (UInt32 × String))) : List Char :=
  (groups.map (observationLine key start)).flatMap (· ++ ['\n'])

theorem observes_observationText (key : Key) (start : String)
    (groups : List (List (UInt32 × String))) :
    List.Forall₂ (fun line pairs => Observes line key start pairs)
      (lines (observationText key start groups)) groups := by
  rw [observationText, lines_observationLines]
  · refine List.forall₂_map_left_iff.mpr (List.forall₂_same.mpr ?_)
    intro pairs _
    exact observes_observationLine key start pairs
  · intro row inside
    obtain ⟨pairs, _, rfl⟩ := List.mem_map.mp inside
    exact ⟨key, start, pairs, rfl⟩

end FlowAudit.Flow
