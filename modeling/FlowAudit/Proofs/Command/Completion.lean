import FlowAudit.Command.Result
import FlowAudit.Proofs.Command.Files
import FlowAudit.Proofs.Distribution.Contributions
import FlowAudit.Proofs.Distribution.Printed

set_option autoImplicit false

/-!
Completion times over a directory. A file is counted when its name has a label and its text is one of flow
records, and then each of its flows is counted once; the text that is given is JSON that shows these counts
(`completion_counts_flows`). Beyond their labels the names of the files do not matter, nor does the order in
which they are listed (`completion_of_same_texts`).
-/
namespace FlowAudit.Command

open FlowAudit.Distribution FlowAudit.Flow FlowAudit.Profile

namespace Files

section Tables

variable (files : Files) (profile : Profile) (directory : String)

/-- The label and the text of a file in the directory, when it has both. -/
def labelledText? (name : String) : Option (String × List Char) :=
  match profile.label? name.toList, files.text (child directory name) with
  | some label, .ok text => some (label, text)
  | _, _ => none

/-- The label and the table of a file in the directory, when it has a label and a text that is one of
flow records. -/
def labelledTable? (name : String) : Option LabelledTable :=
  (files.labelledText? profile directory name).bind LabelledTable.ofText?

theorem labelledText?_eq_some_iff (name label : String) (text : List Char) :
    files.labelledText? profile directory name = some (label, text) ↔
      profile.HasLabel name label ∧ files.HasText (child directory name) text := by
  rw [← profile.label?_eq_some_iff, ← text_eq_ok_iff, labelledText?]
  split
  · rename_i found read label text
    rw [label, text, Option.some.injEq, Option.some.injEq, Except.ok.injEq, Prod.mk.injEq]
  · rename_i other
    simp only [reduceCtorEq, false_iff, not_and]
    exact other label text

theorem labelledText?_of_hasText {name : String} {text : List Char}
    (holds : files.HasText (child directory name) text) :
    files.labelledText? profile directory name =
      (profile.label? name.toList).map fun label => (label, text) := by
  rw [labelledText?, (text_eq_ok_iff files _ text).mpr holds]
  cases profile.label? name.toList <;> rfl

theorem labelledTable?_eq_some_iff (name : String) (entry : LabelledTable) :
    files.labelledTable? profile directory name = some entry ↔
      profile.HasLabel name entry.label ∧
        ∃ text, files.HasText (child directory name) text ∧
          Table.ofInterchange text = .ok entry.table := by
  simp only [labelledTable?, Option.bind_eq_some_iff, Prod.exists, labelledText?_eq_some_iff,
    LabelledTable.ofText?_eq_some_iff]
  constructor
  · rintro ⟨label, text, ⟨has, holds⟩, accepted, rfl⟩
    exact ⟨has, text, holds, accepted⟩
  · rintro ⟨has, text, holds, accepted⟩
    exact ⟨entry.label, text, ⟨has, holds⟩, accepted, rfl⟩

/-- The tables of the files that are counted. -/
def labelledTables (names : List String) : List LabelledTable :=
  names.filterMap (files.labelledTable? profile directory)

theorem labelledTexts_of_hasText {texts : String → List Char} {names : List String}
    (holds : ∀ name ∈ names, files.HasText (child directory name) (texts name)) :
    names.filterMap (files.labelledText? profile directory) =
      names.filterMap fun name =>
        (profile.label? name.toList).map fun label => (label, texts name) := by
  apply List.filterMap_congr
  intro name inside
  exact files.labelledText?_of_hasText profile directory (holds name inside)

theorem labelledTables_eq (names : List String) :
    files.labelledTables profile directory names =
      (names.filterMap (files.labelledText? profile directory)).filterMap LabelledTable.ofText? :=
  List.filterMap_filterMap.symm

theorem labelledTables_of_hasText {texts : String → List Char} {names : List String}
    (holds : ∀ name ∈ names, files.HasText (child directory name) (texts name)) :
    files.labelledTables profile directory names =
      (names.filterMap fun name => (profile.label? name.toList).map fun label =>
        (label, texts name)).filterMap LabelledTable.ofText? := by
  rw [labelledTables_eq, labelledTexts_of_hasText files profile directory holds]

theorem labelledTables_inOrder (names : List String) :
    (files.labelledTables profile directory (inOrder names)).Perm
      (files.labelledTables profile directory names) :=
  (inOrder_perm names).filterMap _

theorem label_mem_labels {names : List String} :
    ∀ entry ∈ files.labelledTables profile directory names, entry.label ∈ profile.labels := by
  intro entry counted
  obtain ⟨name, _, found⟩ := List.mem_filterMap.mp counted
  exact ((labelledTable?_eq_some_iff files profile directory name entry).mp found).1.mem_labels

end Tables

section Completion

variable {files : Files} {profile : Profile} {directory : String} {packets ack : UInt32}
  {names : List String}

theorem filterMap_contribution? (ack : UInt32) (names : List String) :
    (names.filterMap fun name => (files.text (child directory name)).toOption.map
      (RecordFile.mk name)).filterMap (fun file => file.contribution? profile ack) =
      (files.labelledTables profile directory names).map (LabelledTable.contribution ack) := by
  rw [List.filterMap_filterMap, labelledTables, List.map_filterMap]
  apply List.filterMap_congr
  intro name _
  simp only [labelledTable?, labelledText?]
  cases files.text (child directory name) with
  | error cause => cases profile.label? name.toList <;> rfl
  | ok text =>
    cases known : profile.label? name.toList with
    | none =>
      simp only [Except.toOption, Option.map_some, Option.bind_some, RecordFile.contribution?, known]
      rfl
    | some label =>
      simp only [Except.toOption, Option.map_some, Option.bind_some, RecordFile.contribution?, known,
        LabelledTable.ofText?]
      cases Table.ofInterchange text <;> rfl

/-- Completion gives the report on the tables of the files that are counted. -/
theorem completion_eq_ofTables (rules : profile.groups ≠ [])
    (bound : profile.settings.completion.completionAck packets = some ack)
    (found : (files directory).names = .ok names) :
    files.completion profile directory packets =
      (CompletionReport.ofTables profile packets ack
        (files.labelledTables profile directory (inOrder names))).mapError .noDistributions := by
  have some : profile.groups.isEmpty = false := by
    rw [← Bool.not_eq_true, List.isEmpty_iff]
    exact rules
  rw [completion, some, bound, recordFiles, listing, found,
    ← CompletionReport.ofFiles_eq_ofTables profile packets ack _ (filterMap_contribution? ack _)]
  rfl

theorem completion_of_numbers (rules : profile.groups ≠ [])
    (bound : profile.settings.completion.completionAck packets = some ack)
    (found : (files directory).names = .ok names)
    (numbers : AllTimesNumbers ack (files.labelledTables profile directory names)) :
    files.completion profile directory packets =
      (CompletionReport.ofTables profile packets ack
        (files.labelledTables profile directory names)).mapError .noDistributions := by
  have same := CompletionReport.ofTables_congr profile packets ack
    (files.labelledTables_inOrder profile directory names).symm fun label _ => numbers.samplesOf label
  rw [completion_eq_ofTables rules bound found, same]

theorem bound_of_completion {report : CompletionReport}
    (success : files.completion profile directory packets = .ok report) :
    profile.groups ≠ [] ∧ ∃ ack, profile.settings.completion.completionAck packets = some ack := by
  cases rules : profile.groups with
  | nil =>
    have failure : files.completion profile directory packets = .error .noGroupRules := by
      rw [completion, rules]
      rfl
    rw [failure] at success
    cases success
  | cons rule rest =>
    cases bound : profile.settings.completion.completionAck packets with
    | none =>
      have failure : files.completion profile directory packets = .error (.packetOverflow packets) := by
        rw [completion, rules, bound]
        rfl
      rw [failure] at success
      cases success
    | some ack => exact ⟨List.cons_ne_nil rule rest, ack, rfl⟩

end Completion

end Files

section Result

variable {files : Files} {profile : Profile} {directory : String} {packets ack : UInt32}
  {names : List String}

/-- The text of a report is JSON for the value that is printed. -/
theorem parse?_reportText {value : Json.Value} (well : Json.WellSpelled value) :
    Json.parse? (reportText value) = some value := by
  have newLine : Json.IsBlank ['\n'] := by simp [Json.IsBlank, Json.isBlank]
  exact Json.parse?_of_spells
    (Json.Spells.blanks Json.isBlank_nil (Json.spells_indentedAt well 0) newLine)

theorem isShown_reportText (report : CompletionReport) :
    ∃ shown, Json.parse? (reportText report.toJson) = some shown ∧ report.IsShown shown :=
  ⟨report.toJson, parse?_reportText report.wellSpelled_toJson, report.isShown_toJson⟩

theorem result_of_completion {report : CompletionReport}
    (success : files.completion profile directory packets = .ok report) :
    (Task.completion directory packets).result files profile = .ok (reportText report.toJson) := by
  rw [Task.result, success]
  rfl

theorem completion_of_filled (rules : profile.groups ≠ [])
    (bound : profile.settings.completion.completionAck packets = some ack)
    (found : (files directory).names = .ok names)
    (numbers : AllTimesNumbers ack (files.labelledTables profile directory names))
    (filled : ∀ rule ∈ profile.groups,
      0 < completedFlows ack (files.labelledTables profile directory names) rule.label) :
    ∃ report : CompletionReport,
      report.CountsFlows profile ack (files.labelledTables profile directory names) ∧
      files.completion profile directory packets = .ok report := by
  have counted : ∀ label ∈ profile.labels,
      0 < completedFlows ack (files.labelledTables profile directory names) label := by
    intro label listed
    rw [(listsFirsts_labels profile).members] at listed
    obtain ⟨rule, inside, rfl⟩ := List.mem_map.mp listed
    exact filled rule inside
  obtain ⟨report, success, counts⟩ := CompletionReport.countsFlows_of_filled packets
    (files.label_mem_labels profile directory) numbers counted
  refine ⟨report, counts, ?_⟩
  rw [Files.completion_of_numbers rules bound found numbers, success]
  rfl

theorem result_of_empty (bound : profile.settings.completion.completionAck packets = some ack)
    (found : (files directory).names = .ok names)
    (numbers : AllTimesNumbers ack (files.labelledTables profile directory names))
    {earlier later : List GroupRule} {rule : GroupRule}
    (split : profile.groups = earlier ++ rule :: later)
    (filled : ∀ other ∈ earlier,
      0 < completedFlows ack (files.labelledTables profile directory names) other.label)
    (empty : completedFlows ack (files.labelledTables profile directory names) rule.label = 0) :
    (Task.completion directory packets).result files profile =
      .error (.noDistributions (.emptyGroup rule.label)) := by
  have rules : profile.groups ≠ [] := by simp [split]
  rw [Task.result, Files.completion_of_numbers rules bound found numbers,
    CompletionReport.ofTables_of_empty packets numbers split filled empty]
  rfl

/-- Files that are not counted leave no mark on the result, even on a failure. -/
theorem result_of_counted {other : Files} (rules : profile.groups ≠ [])
    (bound : profile.settings.completion.completionAck packets = some ack)
    (found : (files directory).names = .ok names)
    (rest : (other directory).names =
      .ok (names.filter fun name => (files.labelledTable? profile directory name).isSome))
    (same : ∀ name ∈ names, (files.labelledTable? profile directory name).isSome = true →
      (other (child directory name)).bytes = (files (child directory name)).bytes) :
    (Task.completion directory packets).result other profile =
      (Task.completion directory packets).result files profile := by
  have tables : other.labelledTables profile directory (inOrder (names.filter fun name =>
      (files.labelledTable? profile directory name).isSome)) =
      files.labelledTables profile directory (inOrder names) := by
    rw [inOrder_filter, Files.labelledTables, Files.labelledTables, List.filterMap_filter]
    apply List.filterMap_congr
    intro name listed
    split
    · rename_i counted
      have bytes := same name ((inOrder_perm names).mem_iff.mp listed) counted
      rw [Files.labelledTable?, Files.labelledText?, Files.text, bytes]
      rfl
    · rename_i skipped
      exact (Option.not_isSome_iff_eq_none.mp skipped).symm
  rw [Task.result, Task.result, Files.completion_eq_ofTables rules bound rest, tables,
    Files.completion_eq_ofTables rules bound found]

/-- Every flow of the counted files is counted once: in the group of the label of its file when it has a
completion time, and as incomplete otherwise. The text that is given shows the counts. The first label
without a sample makes the task fail, and the other files leave no mark. -/
theorem completion_counts_flows (rules : profile.groups ≠ [])
    (bound : profile.settings.completion.completionAck packets = some ack)
    (found : (files directory).names = .ok names) :
    let result := (Task.completion directory packets).result files profile
    let tables := files.labelledTables profile directory names
    (∀ name entry, files.labelledTable? profile directory name = some entry ↔
      profile.HasLabel name entry.label ∧ ∃ text, files.HasText (child directory name) text ∧
        Table.ofInterchange text = .ok entry.table) ∧
    (AllTimesNumbers ack tables →
      ((∀ rule ∈ profile.groups, 0 < completedFlows ack tables rule.label) →
        ∃ report : CompletionReport, report.CountsFlows profile ack tables ∧
          files.completion profile directory packets = .ok report ∧
          result = .ok (reportText report.toJson) ∧
          ∃ shown, Json.parse? (reportText report.toJson) = some shown ∧ report.IsShown shown) ∧
      ∀ rule, profile.groups.find? (fun rule => completedFlows ack tables rule.label = 0) = some rule →
        result = .error (.noDistributions (.emptyGroup rule.label))) ∧
    ∀ other : Files, (other directory).names =
        .ok (names.filter fun name => (files.labelledTable? profile directory name).isSome) →
      (∀ name ∈ names, (files.labelledTable? profile directory name).isSome = true →
        (other (child directory name)).bytes = (files (child directory name)).bytes) →
      (Task.completion directory packets).result other profile = result := by
  intro result tables
  refine ⟨files.labelledTable?_eq_some_iff profile directory, ?_, ?_⟩
  · intro numbers
    constructor
    · intro filled
      obtain ⟨report, counts, success⟩ := completion_of_filled rules bound found numbers filled
      exact ⟨report, counts, success, result_of_completion success, isShown_reportText report⟩
    · intro rule first
      obtain ⟨empty, earlier, later, split, before⟩ := List.find?_eq_some_iff_append.mp first
      refine result_of_empty bound found numbers split ?_ (of_decide_eq_true empty)
      intro other sooner
      have some := before other sooner
      simp only [Bool.not_eq_true', decide_eq_false_iff_not] at some
      exact Nat.pos_of_ne_zero some
  · intro other rest same
    exact result_of_counted rules bound found rest same

/-- Four files of which one has no label and one no flow records. A name that both patterns fit has the
label of the first; under a profile with a label that no name has, that label is named. -/
theorem completion_of_overlapping_rules :
    let one := ((Table.empty.openFlow ⟨1, 2⟩ "0.5").recordAck ⟨1, 2⟩ 2 "1.5").interchange
    let two := (((Table.empty.openFlow ⟨1, 2⟩ "0.5").recordAck ⟨1, 2⟩ 2 "2.5").openFlow
      ⟨3, 4⟩ "1.0").interchange
    let texts := fun path =>
      if path = "runs/perf_b" then one else if path = "runs/perf_ab_bad" then ['?'] else two
    let names := ["perf_b", "notes", "perf_ab_bad", "perf_ab"]
    let files : Files := fun path =>
      if path = "runs" then { isDirectory := true, names := .ok names }
      else { bytes := .ok (String.ofList (texts path)).toUTF8 }
    let fewer : Files := fun path =>
      if path = "runs" then { isDirectory := true, names := .ok ["perf_b", "perf_ab"] } else files path
    let filled : Profile := { groups := [⟨"left", "_a"⟩, ⟨"right", "b"⟩, ⟨"left", "_c"⟩] }
    let empty : Profile := { groups := [⟨"left", "_a"⟩, ⟨"none", "_c"⟩, ⟨"right", "b"⟩] }
    let tables := files.labelledTables filled "runs" names
    tables.map LabelledTable.label = ["right", "left"] ∧
      (∃ report : CompletionReport, report.CountsFlows filled 2 tables ∧
        (report.groups.map GroupEcdf.sampleCount).sum + report.incompleteFlows = 3 ∧
        files.completion filled "runs" 0 = .ok report ∧
        (Task.completion "runs" 0).result files filled = .ok (reportText report.toJson) ∧
        (∃ shown, Json.parse? (reportText report.toJson) = some shown ∧ report.IsShown shown) ∧
        (Task.completion "runs" 0).result fewer filled = .ok (reportText report.toJson)) ∧
      (Task.completion "runs" 0).result files empty =
        .error (.noDistributions (.emptyGroup "none")) := by
  intro one two texts names files fewer filled empty tables
  have apart : ∀ name ∈ names, child "runs" name ≠ "runs" := by decide
  have holds : ∀ name ∈ names, files.HasText (child "runs" name) (texts (child "runs" name)) := by
    intro name inside
    exact congrArg Finding.bytes (if_neg (apart name inside))
  have found : (files "runs").names = .ok names := rfl
  have bound : filled.settings.completion.completionAck 0 = some 2 := by decide
  have counted : tables = _ := files.labelledTables_of_hasText filled "runs" holds
  have counts : tables.map LabelledTable.label = ["right", "left"] ∧ AllTimesNumbers 2 tables ∧
      (∀ rule ∈ filled.groups, 0 < completedFlows 2 tables rule.label) ∧
      (tables.map fun entry => entry.table.size).sum = 3 := by
    rw [counted]
    decide +kernel
  obtain ⟨labels, numbers, enough, size⟩ := counts
  have kept : names.filter (fun name => (files.labelledTable? filled "runs" name).isSome) =
      ["perf_b", "perf_ab"] := by
    have each : ∀ name ∈ names, (files.labelledTable? filled "runs" name).isSome =
        ((filled.label? name.toList).bind fun label =>
          LabelledTable.ofText? (label, texts (child "runs" name))).isSome := by
      intro name inside
      rw [Files.labelledTable?, files.labelledText?_of_hasText filled "runs" (holds name inside),
        Option.bind_map]
      rfl
    rw [List.filter_congr each]
    decide +kernel
  obtain ⟨_, results, uncounted⟩ := completion_counts_flows (List.cons_ne_nil _ _) bound found
  obtain ⟨report, counts, success, result, shown⟩ := (results numbers).1 enough
  refine ⟨labels, ⟨report, counts, counts.total.trans size, success, result, shown, ?_⟩, ?_⟩
  · rw [uncounted fewer, result]
    · rw [kept]
      rfl
    · intro name inside _
      exact congrArg Finding.bytes (if_neg (apart name inside))
  · have bound : empty.settings.completion.completionAck 0 = some 2 := by decide
    obtain ⟨_, results, _⟩ := completion_counts_flows (List.cons_ne_nil _ _) bound found
    have counted := files.labelledTables_of_hasText empty "runs" holds
    refine (results ?_).2 ⟨"none", "_c"⟩ ?_
    · rw [counted]
      decide +kernel
    · rw [counted]
      decide +kernel

/-- Reports depend on the labels and the texts of the files, and on nothing else about the directory. -/
theorem completion_of_same_texts {other : Files} {elsewhere : String} {others : List String}
    (found : (files directory).names = .ok names) (foundElsewhere : (other elsewhere).names = .ok others)
    (same : (names.filterMap (files.labelledText? profile directory)).Perm
      (others.filterMap (other.labelledText? profile elsewhere))) {text : List Char}
    (success : (Task.completion directory packets).result files profile = .ok text) :
    (Task.completion elsewhere packets).result other profile = .ok text := by
  obtain ⟨report, completed, rfl⟩ := map_eq_ok_iff.mp success
  obtain ⟨rules, ack, bound⟩ := Files.bound_of_completion completed
  have tables : (files.labelledTables profile directory (inOrder names)).Perm
      (other.labelledTables profile elsewhere (inOrder others)) := by
    refine (files.labelledTables_inOrder profile directory names).trans ?_
    refine List.Perm.trans ?_ (other.labelledTables_inOrder profile elsewhere others).symm
    rw [Files.labelledTables_eq, Files.labelledTables_eq]
    exact same.filterMap LabelledTable.ofText?
  have reported := completed
  rw [Files.completion_eq_ofTables rules bound found, mapError_eq_ok_iff] at reported
  have numbers := CompletionReport.numbers_of_ofTables packets reported
  apply result_of_completion
  rw [Files.completion_eq_ofTables rules bound foundElsewhere, mapError_eq_ok_iff,
    ← CompletionReport.ofTables_congr profile packets ack tables numbers]
  exact reported

/-- Two files that change their names and their order, beside a new one without a label. -/
theorem completion_of_renamed_files :
    let one := ((Table.empty.openFlow ⟨1, 2⟩ "0.5").recordAck ⟨1, 2⟩ 2 "1.5").interchange
    let two := ((Table.empty.openFlow ⟨3, 4⟩ "0.0").recordAck ⟨3, 4⟩ 2 "-0.0").interchange
    let texts := fun path => if path = "runs/perf_1" ∨ path = "more/perf_z" then one else two
    let files : Files := fun path =>
      if path = "runs" then { isDirectory := true, names := .ok ["perf_1", "perf_2"] }
      else if path = "more" then { isDirectory := true, names := .ok ["perf_z", "notes", "perf_a"] }
      else { bytes := .ok (String.ofList (texts path)).toUTF8 }
    let profile : Profile := { groups := [⟨"all", "perf"⟩] }
    ∃ text, (Task.completion "runs" 0).result files profile = .ok text ∧
      (Task.completion "more" 0).result files profile = .ok text := by
  intro one two texts files profile
  have holds : ∀ path, path ≠ "runs" → path ≠ "more" → files.HasText path (texts path) := by
    intro path other another
    exact congrArg Finding.bytes ((if_neg other).trans (if_neg another))
  have before : ∀ name ∈ ["perf_1", "perf_2"],
      files.HasText (child "runs" name) (texts (child "runs" name)) := by
    intro name inside
    apply holds <;> revert name <;> decide
  have after : ∀ name ∈ ["perf_z", "notes", "perf_a"],
      files.HasText (child "more" name) (texts (child "more" name)) := by
    intro name inside
    apply holds <;> revert name <;> decide
  have counts : AllTimesNumbers 2 (files.labelledTables profile "runs" ["perf_1", "perf_2"]) ∧
      ∀ rule ∈ profile.groups,
        0 < completedFlows 2 (files.labelledTables profile "runs" ["perf_1", "perf_2"]) rule.label := by
    rw [files.labelledTables_of_hasText profile "runs" before]
    decide +kernel
  have bound : profile.settings.completion.completionAck 0 = some 2 := by decide
  have found : (files "runs").names = .ok ["perf_1", "perf_2"] := rfl
  have foundMore : (files "more").names = .ok ["perf_z", "notes", "perf_a"] := rfl
  obtain ⟨report, _, completed⟩ :=
    completion_of_filled (List.cons_ne_nil _ _) bound found counts.1 counts.2
  have success := result_of_completion completed
  refine ⟨_, success, completion_of_same_texts found foundMore ?_ success⟩
  rw [files.labelledTexts_of_hasText profile "runs" before,
    files.labelledTexts_of_hasText profile "more" after]
  decide +kernel

end Result

end FlowAudit.Command
