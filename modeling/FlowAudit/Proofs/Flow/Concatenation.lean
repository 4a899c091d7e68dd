import FlowAudit.Proofs.Attempts
import FlowAudit.Proofs.Flow.Interchange
import FlowAudit.Proofs.Flow.Merge

set_option autoImplicit false

/-!
Interchange texts one after the other. Reading them together merges what each gives alone, and a fault
keeps its cause and its place among all lines (`ofInterchange_append`). A text is refused for its first
line that is neither blank nor a record.
-/
namespace FlowAudit.Flow

open FlowAudit.Text

/-- The line says something, but is no record. -/
def Faulty (cause : RecordError) (line : List Char) : Prop :=
  (∃ char ∈ line, isBlank char = false) ∧ readRecordLine line = .error cause

/-- The fault is that of the first faulty row. Blank rows are numbered like all others. -/
def IsFirstFault (number : Nat) (rows : List (List Char)) (fault : TableError) : Prop :=
  ∃ before line after, rows = before ++ line :: after ∧
    (∀ other ∈ before, ∀ cause, ¬Faulty cause other) ∧
    fault.line = number + before.length ∧ Faulty fault.cause line

/-- The fault as it stands after some more lines. -/
def TableError.after (lines : Nat) (fault : TableError) : TableError :=
  { fault with line := lines + fault.line }

/-- The flows that a line adds; a blank line adds none. -/
def lineFlows (line : List Char) : Except RecordError (List (Key × Record)) :=
  if (trim line).isEmpty then .ok [] else (readRecordLine line).map fun flow => [flow]

theorem lineFlows_eq_error_iff (line : List Char) (cause : RecordError) :
    lineFlows line = .error cause ↔ Faulty cause line := by
  have visible : (∃ char ∈ line, isBlank char = false) ↔ ¬(trim line).isEmpty = true := by
    simp [trim_eq_nil_iff]
  rw [lineFlows, Faulty, visible]
  by_cases blank : (trim line).isEmpty = true
  · simp [blank]
  · rw [if_neg blank]
    cases readRecordLine line <;> simp [Except.map, blank]

theorem isFirstFault_cons_iff (number : Nat) (line : List Char) (rest : List (List Char))
    (fault : TableError) :
    IsFirstFault number (line :: rest) fault ↔
      fault.line = number ∧ Faulty fault.cause line ∨
        (∀ cause, ¬Faulty cause line) ∧ IsFirstFault (number + 1) rest fault := by
  have split := exists_split_cons_iff line rest (fun line => ∀ cause, ¬Faulty cause line)
    fun place line => fault.line = number + place ∧ Faulty fault.cause line
  simpa only [IsFirstFault, Nat.add_zero, Nat.add_comm, Nat.add_left_comm] using split

theorem IsFirstFault.mem {number : Nat} {rows : List (List Char)} {fault : TableError}
    (first : IsFirstFault number rows fault) : ∃ line ∈ rows, Faulty fault.cause line := by
  obtain ⟨before, line, after, rfl, _, _, faulty⟩ := first
  exact ⟨line, by simp, faulty⟩

namespace Table

/-- Adds flows, each as an observation of its own. -/
def absorbAll (table : Table) (flows : List (Key × Record)) : Table :=
  flows.foldl (fun merged flow => merged.absorb flow.1 flow.2) table

/-- A flow joins a merged table as it joins the later part of it. -/
theorem merge_absorb (table other : Table) (key : Key) (record : Record) :
    (table.merge other).absorb key record = table.merge (other.absorb key record) :=
  merge_assoc table other ⟨[(key, record)], by simp⟩

theorem merge_absorbAll (table other : Table) (flows : List (Key × Record)) :
    (table.merge other).absorbAll flows = table.merge (other.absorbAll flows) := by
  simp only [absorbAll]
  induction flows generalizing other with
  | nil => rfl
  | cons flow rest ih => rw [List.foldl_cons, merge_absorb, ih, List.foldl_cons]

section Step

variable {line : List Char} (table : Table) (number : Nat) (rest : List (List Char))

theorem readLines_of_ok {flows : List (Key × Record)} (reads : lineFlows line = .ok flows) :
    readLines table number (line :: rest) = readLines (table.absorbAll flows) (number + 1) rest := by
  rw [readLines]
  unfold lineFlows at reads
  split at reads
  · rename_i blank
    obtain rfl : [] = flows := Except.ok.inj reads
    exact if_pos blank
  · rename_i visible
    rw [if_neg visible]
    cases record : readRecordLine line with
    | error cause =>
      rw [record] at reads
      cases reads
    | ok flow =>
      rw [record] at reads
      obtain rfl : [flow] = flows := Except.ok.inj reads
      rfl

theorem readLines_of_faulty {cause : RecordError} (faulty : Faulty cause line) :
    readLines table number (line :: rest) = .error ⟨number, cause⟩ := by
  have visible : ¬(trim line).isEmpty = true := by
    simpa [trim_eq_nil_iff] using faulty.1
  rw [readLines, if_neg visible, faulty.2]

end Step

theorem readLines_append (table : Table) (number : Nat) (first second : List (List Char)) :
    readLines table number (first ++ second) =
      (readLines table number first).bind fun read =>
        readLines read (number + first.length) second := by
  induction first generalizing table number with
  | nil => rfl
  | cons line rest ih =>
    cases outcome : lineFlows line with
    | error cause =>
      have faulty := (lineFlows_eq_error_iff line cause).mp outcome
      rw [List.cons_append, readLines_of_faulty _ _ _ faulty, readLines_of_faulty _ _ _ faulty]
      rfl
    | ok flows =>
      have place : number + 1 + rest.length = number + (line :: rest).length := by
        rw [List.length_cons]
        omega
      rw [List.cons_append, readLines_of_ok _ _ _ outcome, readLines_of_ok _ _ _ outcome, ih, place]

/-- What was known before the lines is merged with what the lines give on their own. -/
theorem readLines_merge (table other : Table) (number : Nat) (rows : List (List Char)) :
    readLines (table.merge other) number rows = (readLines other number rows).map table.merge := by
  induction rows generalizing other number with
  | nil => rfl
  | cons line rest ih =>
    cases outcome : lineFlows line with
    | error cause =>
      have faulty := (lineFlows_eq_error_iff line cause).mp outcome
      rw [readLines_of_faulty _ _ _ faulty, readLines_of_faulty _ _ _ faulty]
      rfl
    | ok flows =>
      rw [readLines_of_ok _ _ _ outcome, readLines_of_ok _ _ _ outcome, merge_absorbAll, ih]

theorem readLines_add (table : Table) (lines number : Nat) (rows : List (List Char)) :
    readLines table (lines + number) rows =
      (readLines table number rows).mapError (TableError.after lines) := by
  induction rows generalizing table number with
  | nil => rfl
  | cons line rest ih =>
    cases outcome : lineFlows line with
    | error cause =>
      have faulty := (lineFlows_eq_error_iff line cause).mp outcome
      rw [readLines_of_faulty _ _ _ faulty, readLines_of_faulty _ _ _ faulty]
      rfl
    | ok flows =>
      rw [readLines_of_ok _ _ _ outcome, readLines_of_ok _ _ _ outcome, Nat.add_assoc, ih]

theorem readLines_eq_error_iff (table : Table) (number : Nat) (rows : List (List Char))
    (fault : TableError) :
    readLines table number rows = .error fault ↔ IsFirstFault number rows fault := by
  induction rows generalizing table number with
  | nil => simp [readLines, IsFirstFault]
  | cons line rest ih =>
    rw [isFirstFault_cons_iff]
    cases outcome : lineFlows line with
    | error cause =>
      have faulty := (lineFlows_eq_error_iff line cause).mp outcome
      rw [readLines_of_faulty _ _ _ faulty]
      constructor
      · intro same
        obtain rfl := Except.error.inj same
        exact Or.inl ⟨rfl, faulty⟩
      · rintro (⟨place, fails⟩ | ⟨sound, _⟩)
        · obtain rfl : cause = fault.cause := Except.error.inj (faulty.2.symm.trans fails.2)
          rw [← place]
        · exact absurd faulty (sound cause)
    | ok flows =>
      have sound : ∀ cause, ¬Faulty cause line := by
        intro cause faulty
        rw [(lineFlows_eq_error_iff line cause).mpr faulty] at outcome
        cases outcome
      simp only [readLines_of_ok _ _ _ outcome, ih, sound, and_false, false_or, not_false_eq_true,
        implies_true, true_and]

theorem exists_readLines_eq_error {rows : List (List Char)} {line : List Char} {cause : RecordError}
    (inside : line ∈ rows) (faulty : Faulty cause line) (table : Table) (number : Nat) :
    ∃ fault, readLines table number rows = .error fault := by
  obtain ⟨before, after, rfl⟩ := List.append_of_mem inside
  rw [readLines_append]
  cases readLines table number before with
  | error fault => exact ⟨fault, rfl⟩
  | ok read => exact ⟨_, readLines_of_faulty read _ after faulty⟩

/-- Two texts read as one, when the first does not break off inside a line. -/
theorem ofInterchange_append {first : List Char} (ended : Ended first) (second : List Char) :
    ofInterchange (first ++ second) =
      (ofInterchange first).bind fun table =>
        ((ofInterchange second).map table.merge).mapError (TableError.after (lines first).length) := by
  rw [ofInterchange, lines_append_of_ended ended, readLines_append]
  apply congrArg
  funext table
  rw [Nat.add_comm 1, readLines_add]
  exact congrArg (Except.mapError _) (readLines_merge table empty 1 (lines second))

/-- Reading turns concatenation into merging, and a text is refused for the first of its lines that is
neither blank nor a record. -/
theorem ofInterchange_append_eq_merge {first : List Char} (ended : Ended first)
    (second text : List Char) :
    (∀ table other, ofInterchange first = .ok table → ofInterchange second = .ok other →
      ofInterchange (first ++ second) = .ok (table.merge other)) ∧
    (∀ fault, ofInterchange first = .error fault → ofInterchange (first ++ second) = .error fault) ∧
    (∀ table fault, ofInterchange first = .ok table → ofInterchange second = .error fault →
      ofInterchange (first ++ second) = .error ⟨(lines first).length + fault.line, fault.cause⟩) ∧
    ((∃ fault, ofInterchange text = .error fault) ↔
      ∃ line ∈ lines text, ∃ cause, Faulty cause line) ∧
    ∀ fault, ofInterchange text = .error fault ↔ IsFirstFault 1 (lines text) fault := by
  have together := ofInterchange_append ended second
  have refused := readLines_eq_error_iff empty 1 (lines text)
  refine ⟨?_, ?_, ?_, ?_, refused⟩
  · intro table other left right
    rw [together, left, right]
    rfl
  · intro fault left
    rw [together, left]
    rfl
  · intro table fault left right
    rw [together, left, right]
    rfl
  · constructor
    · rintro ⟨fault, failure⟩
      obtain ⟨line, inside, faulty⟩ := ((refused fault).mp failure).mem
      exact ⟨line, inside, fault.cause, faulty⟩
    · rintro ⟨line, inside, cause, faulty⟩
      exact exists_readLines_eq_error inside faulty empty 1

/-- The second text repeats a flow of the first with an ack at another time; the third has a blank
line before a line without a tab. -/
theorem ofInterchange_append_of_repeated_flow :
    let table := (empty.openFlow ⟨1, 2⟩ "1.0").recordAck ⟨1, 2⟩ 5 "2.0"
    let other := ((empty.openFlow ⟨1, 2⟩ "0.5").recordAck ⟨1, 2⟩ 5 "9.0").openFlow ⟨3, 4⟩ "7.0"
    let broken := "\n1-2 {}\n".toList
    Ended table.interchange ∧
      ofInterchange (table.interchange ++ other.interchange) = .ok (table.merge other) ∧
      (table.merge other).keys = [⟨1, 2⟩, ⟨3, 4⟩] ∧
      (table.merge other).ackTime? ⟨1, 2⟩ 5 = some "2.0" ∧
      ofInterchange broken = .error ⟨2, .missingTab⟩ ∧
      ofInterchange (table.interchange ++ broken) = .error ⟨3, .missingTab⟩ := by
  intro table other broken
  have ended : Ended table.interchange := by decide +kernel
  have one : (lines table.interchange).length = 1 := by decide +kernel
  have fault : ofInterchange broken = .error ⟨2, .missingTab⟩ := rfl
  have known := table.ofInterchange_interchange
  obtain ⟨merges, _⟩ := ofInterchange_append_eq_merge ended other.interchange []
  obtain ⟨_, _, fails, _⟩ := ofInterchange_append_eq_merge ended broken []
  refine ⟨ended, merges table other known other.ofInterchange_interchange, by decide +kernel,
    by decide +kernel, fault, ?_⟩
  rw [fails table ⟨2, .missingTab⟩ known fault, one]
  rfl

end Table

end FlowAudit.Flow
