import FlowAudit.Proofs.Command.Classification
import FlowAudit.Proofs.Command.Completion
import FlowAudit.Proofs.Command.Extraction

set_option autoImplicit false

/-!
What a task finds among the files. A task looks at the texts of the files that it reads, at which of its
inputs are directories and at the names in these, and at nothing else (`Task.result_of_findsSame`).
-/
namespace FlowAudit.Command

open FlowAudit.Distribution FlowAudit.Verdict

namespace Files

/-- As far as they are kept, the files in the directory are the same ones, with the same texts. -/
structure SameInside (files other : Files) (directory : String) (kept : String → Bool) : Prop where
  listing : (other.listing directory).map (List.filter kept) =
    (files.listing directory).map (List.filter kept)
  texts : ∀ names, files.listing directory = .ok names → ∀ name ∈ names, kept name = true →
    ∀ text, other.HasText (child directory name) text ↔ files.HasText (child directory name) text

section Inside

variable {files other : Files} {directory : String} {kept : String → Bool}

/-- What is read from the files that are kept is the same. -/
theorem SameInside.filterMap (same : files.SameInside other directory kept) {α : Type}
    {read read' : String → Option α} (skips : ∀ name, kept name = false → read name = none)
    (skips' : ∀ name, kept name = false → read' name = none)
    (reads : ∀ name, (∀ text, other.HasText (child directory name) text ↔
      files.HasText (child directory name) text) → read' name = read name) :
    (other.listing directory).map (List.filterMap read') =
      (files.listing directory).map (List.filterMap read) := by
  have useful : ∀ (choose : String → Option α), (∀ name, kept name = false → choose name = none) →
      ∀ names : List String, names.filterMap choose = (names.filter kept).filterMap choose := by
    intro choose nothing names
    rw [List.filterMap_filter]
    apply List.filterMap_congr
    intro name _
    cases keeps : kept name with
    | true => rfl
    | false => exact nothing name keeps
  have listings := same.listing
  cases found : files.listing directory with
  | error cause =>
    rw [found] at listings
    rw [map_eq_error_iff.mp listings]
    rfl
  | ok names =>
    rw [found] at listings
    obtain ⟨names', found', filtered⟩ := map_eq_ok_iff.mp listings
    rw [found']
    apply congrArg Except.ok
    rw [useful read' skips', filtered, useful read skips]
    apply List.filterMap_congr
    intro name inside
    obtain ⟨listed, keeps⟩ := List.mem_filter.mp inside
    exact reads name (same.texts names found name listed keeps)

theorem SameInside.inputReports (same : files.SameInside other directory fun _ => true)
    (evaluator : Evaluator) (listed : (files directory).isDirectory = true)
    (listed' : (other directory).isDirectory = true) :
    other.inputReports evaluator directory = files.inputReports evaluator directory := by
  rw [inputReports_of_listing listed, inputReports_of_listing listed']
  apply congrArg (Except.mapError _)
  -- Every file in the directory is kept, so none may be skipped.
  apply same.filterMap
  · intro name skipped
    cases skipped
  · intro name skipped
    cases skipped
  · intro name texts
    apply toOption_congr
    simp only [documentReport_eq_ok_iff, HasSnapshots, texts, implies_true]

end Inside

theorem documentReport_of_text {files other : Files} (evaluator : Evaluator) {path : String}
    (same : other.text path = files.text path) :
    other.documentReport evaluator path = files.documentReport evaluator path := by
  rw [documentReport, documentReport, snapshots, snapshots, readAs, readAs, same]

theorem traceTable_of_text {files other : Files} (control : Trace.PortRange) {path : String}
    (same : other.text path = files.text path) :
    other.traceTable control path = files.traceTable control path := by
  rw [traceTable, traceTable, readAs, readAs, same]

/-- The tables of the files in a directory that are counted. -/
def countedTables (files : Files) (profile : Profile) (directory : String) :
    Except FileError (List LabelledTable) :=
  (files.listing directory).map (List.filterMap (files.labelledTable? profile directory))

/-- A completion reports on the tables that are counted. -/
theorem completion_eq (files : Files) (profile : Profile) (directory : String) (packets : UInt32) :
    files.completion profile directory packets =
      if profile.groups.isEmpty then .error .noGroupRules
      else
        match profile.settings.completion.completionAck packets with
        | none => .error (.packetOverflow packets)
        | some ack =>
            (files.countedTables profile directory).mapError (.unlistable directory) >>= fun tables =>
              (CompletionReport.ofTables profile packets ack tables).mapError .noDistributions := by
  unfold completion
  cases profile.groups.isEmpty with
  | true => rfl
  | false =>
    cases profile.settings.completion.completionAck packets with
    | none => rfl
    | some ack =>
      cases found : files.listing directory with
      | error cause =>
        rw [recordFiles, countedTables, found]
        rfl
      | ok names =>
        rw [recordFiles, countedTables, found]
        apply congrArg (Except.mapError Failure.noDistributions)
        exact CompletionReport.ofFiles_eq_ofTables profile packets ack _ (filterMap_contribution? ack names)

end Files

/-- The names that a completion counts. -/
def isLabelled (profile : Profile) (name : String) : Bool :=
  (profile.label? name.toList).isSome

theorem Files.SameInside.countedTables {files other : Files} {profile : Profile} {directory : String}
    (same : files.SameInside other directory (isLabelled profile)) :
    other.countedTables profile directory = files.countedTables profile directory := by
  have skips : ∀ (files : Files) (name : String), isLabelled profile name = false →
      files.labelledTable? profile directory name = none := by
    intro files name skipped
    have unlabelled : profile.label? name.toList = none :=
      Option.isNone_iff_eq_none.mp (Option.isSome_eq_false_iff.mp skipped)
    rw [labelledTable?, labelledText?, unlabelled]
    rfl
  apply same.filterMap (skips files) (skips other)
  intro name texts
  apply Option.ext
  intro entry
  simp only [labelledTable?_eq_some_iff, texts]

/-- What a task looks at under the profile is the same in the other files. -/
def Task.FindsSame (task : Task) (profile : Profile) (files other : Files) : Prop :=
  match task with
  | .extract traces => ∀ path ∈ traces, other.text path = files.text path
  | .classify inputs => ∀ input ∈ inputs, (other input).isDirectory = (files input).isDirectory ∧
      if (files input).isDirectory then files.SameInside other input fun _ => true
      else other.text input = files.text input
  | .completion directory _ => files.SameInside other directory (isLabelled profile)

theorem Task.result_of_findsSame {task : Task} {profile : Profile} {files other : Files}
    (same : task.FindsSame profile files other) :
    task.result other profile = task.result files profile := by
  cases task with
  | extract traces =>
    have tables := mapM_congr fun path inside =>
      Files.traceTable_of_text profile.settings.controlPorts (same path inside)
    rw [result, result, Files.extract, Files.extract, tables]
  | classify inputs =>
    have reports : ∀ evaluator, ∀ input ∈ inputs,
        other.inputReports evaluator input = files.inputReports evaluator input := by
      intro evaluator input inside
      obtain ⟨kind, rest⟩ := same input inside
      split at rest
      · rename_i listed
        exact rest.inputReports evaluator listed (kind.trans listed)
      · rename_i named
        rw [Bool.not_eq_true] at named
        rw [Files.inputReports_of_named named, Files.inputReports_of_named (kind.trans named),
          Files.documentReport_of_text evaluator rest]
    simp only [result, Files.classify, mapM_congr (reports _)]
  | completion directory packets =>
    rw [result, result, Files.completion_eq, Files.completion_eq, same.countedTables]

/-! What a result needs -/

namespace Files

variable {files : Files}

theorem exists_hasText_of_extract {control : Trace.PortRange} {traces : List String} {table : Flow.Table}
    (success : files.extract control traces = .ok table) :
    ∀ path ∈ traces, ∃ text, files.HasText path text := by
  obtain ⟨_, _, later⟩ := bind_eq_ok_iff.mp success
  obtain ⟨tables, each, _⟩ := bind_eq_ok_iff.mp later
  intro path inside
  obtain ⟨table, _, read⟩ := exists_of_mapM_eq_ok each inside
  exact (files.exists_traceTable_iff control path).mp ⟨table, read⟩

theorem exists_names_of_inputReports {evaluator : Verdict.Evaluator} {input : String}
    {reports : List Verdict.Report} (listed : (files input).isDirectory = true)
    (success : files.inputReports evaluator input = .ok reports) :
    ∃ names, (files input).names = .ok names := by
  rw [exists_eq_ok_iff]
  intro cause failed
  rw [inputReports_of_unlistable listed failed] at success
  cases success

theorem exists_hasText_of_inputReports {evaluator : Verdict.Evaluator} {input : String}
    {reports : List Verdict.Report} (named : (files input).isDirectory = false)
    (success : files.inputReports evaluator input = .ok reports) :
    ∃ text, files.HasText input text := by
  rw [Files.inputReports_of_named named] at success
  obtain ⟨report, read, _⟩ := map_eq_ok_iff.mp success
  obtain ⟨_, ⟨text, holds, _⟩, _⟩ := (Files.documentReport_eq_ok_iff files evaluator input report).mp read
  exact ⟨text, holds⟩

theorem exists_inputReports_of_classify {settings : Verdict.Settings} {inputs : List String}
    {report : Verdict.Report} (success : files.classify settings inputs = .ok report) :
    ∃ evaluator, ∀ input ∈ inputs, ∃ reports, files.inputReports evaluator input = .ok reports := by
  obtain ⟨evaluator, _, later⟩ := bind_eq_ok_iff.mp success
  obtain ⟨reports, each, _⟩ := bind_eq_ok_iff.mp later
  refine ⟨evaluator, ?_⟩
  intro input inside
  obtain ⟨found, _, read⟩ := exists_of_mapM_eq_ok each inside
  exact ⟨found, read⟩

theorem exists_names_of_completion {profile : Profile} {directory : String} {packets : UInt32}
    {report : Distribution.CompletionReport}
    (success : files.completion profile directory packets = .ok report) :
    ∃ names, (files directory).names = .ok names := by
  rw [Files.completion_eq] at success
  split at success
  · cases success
  · split at success
    · cases success
    · obtain ⟨tables, counted, _⟩ := bind_eq_ok_iff.mp success
      obtain ⟨listed, found, _⟩ := map_eq_ok_iff.mp (mapError_eq_ok_iff.mp counted)
      obtain ⟨names, known, _⟩ := map_eq_ok_iff.mp found
      exact ⟨names, known⟩

end Files

/-! The files that are read -/

/-- The paths of the files directly inside a directory that are kept. -/
def Files.pathsInside (files : Files) (directory : String) (kept : String → Bool) : List String :=
  match (files directory).names with
  | .ok names => (names.filter kept).map (child directory)
  | .error _ => []

theorem Files.mem_pathsInside {files : Files} {directory name : String} {kept : String → Bool}
    {names : List String} (found : (files directory).names = .ok names) (listed : name ∈ names)
    (keeps : kept name = true) : child directory name ∈ files.pathsInside directory kept := by
  rw [pathsInside, found]
  exact List.mem_map_of_mem (List.mem_filter.mpr ⟨listed, keeps⟩)

/-- The paths of the files whose text a task reads. -/
def Task.reads (task : Task) (profile : Profile) (files : Files) : List String :=
  match task with
  | .extract traces => traces
  | .classify inputs => inputs.flatMap fun input =>
      if (files input).isDirectory then files.pathsInside input fun _ => true else [input]
  | .completion directory _ => files.pathsInside directory (isLabelled profile)

section Reads

variable {files : Files} {inputs : List String} {input : String} (profile : Profile)

theorem mem_reads_of_listed (inside : input ∈ inputs) (listed : (files input).isDirectory = true)
    {path : String} (here : path ∈ files.pathsInside input fun _ => true) :
    path ∈ (Task.classify inputs).reads profile files := by
  apply List.mem_flatMap.mpr
  refine ⟨input, inside, ?_⟩
  rwa [if_pos listed]

theorem mem_reads_of_named (inside : input ∈ inputs) (named : (files input).isDirectory = false) :
    input ∈ (Task.classify inputs).reads profile files := by
  apply List.mem_flatMap.mpr
  refine ⟨input, inside, ?_⟩
  rw [named]
  exact List.mem_cons_self

end Reads

/-- The paths of the files whose text a request reads. -/
def Request.reads (request : Request) (files : Files) : List String :=
  request.config.toList ++
    match files.profile request.config with
    | .ok profile => request.task.reads profile files
    | .error _ => []

end FlowAudit.Command
