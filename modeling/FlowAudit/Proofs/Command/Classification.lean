import FlowAudit.Command.Result
import FlowAudit.Proofs.Command.TreeChanges
import FlowAudit.Proofs.Verdict.Report

set_option autoImplicit false

/-!
Classification of files and directories. A directory stands for the documents directly inside it, in the
order of their names; files beside them that are no documents leave no mark. An input that is named and is
no document stops the classification (`classification_expands_directories`).
-/
namespace FlowAudit.Command

open FlowAudit.Verdict

namespace Files

/-- The file at the path is a document of the snapshots. -/
def HasSnapshots (files : Files) (path : String) (snapshots : List Snapshot) : Prop :=
  ∃ text, files.HasText path text ∧ Snapshot.readDocument? text = some snapshots

/-- The file at the path has no text, or one that is no document. -/
inductive RefusesDocument (files : Files) (path : String) : Failure → Prop where
  | unreadable {cause : FileError} (noText : files.HasNoText path cause) :
      RefusesDocument files path (.unreadable .snapshots path cause)
  | rejected {text : List Char} (holds : files.HasText path text)
      (noDocument : Snapshot.readDocument? text = none) :
      RefusesDocument files path (.badSnapshots path)

/-- What stops a classification at one of its inputs. -/
inductive StopsAt (files : Files) (input : String) : Failure → Prop where
  | document {failure : Failure} (named : (files input).isDirectory = false)
      (refused : files.RefusesDocument input failure) : StopsAt files input failure
  | directory {cause : FileError} (listed : (files input).isDirectory = true)
      (failed : (files input).names = .error cause) : StopsAt files input (.unlistable input cause)

section Documents

variable (files : Files) (evaluator : Evaluator) (path : String)

theorem snapshots_eq_ok_iff (snapshots : List Snapshot) :
    files.snapshots path = .ok snapshots ↔ files.HasSnapshots path snapshots := by
  simp only [Files.snapshots, readAs, bind_eq_ok_iff, mapError_eq_ok_iff, text_eq_ok_iff, HasSnapshots]
  apply exists_congr
  intro text
  apply and_congr_right
  intro _
  cases Snapshot.readDocument? text <;> simp [pure, Except.pure, throw, throwThe, MonadExceptOf.throw]

theorem snapshots_eq_error_iff (failure : Failure) :
    files.snapshots path = .error failure ↔ files.RefusesDocument path failure := by
  simp only [Files.snapshots, readAs, bind_eq_error_iff, mapError_eq_error_iff, mapError_eq_ok_iff,
    text_eq_error_iff, text_eq_ok_iff]
  constructor
  · rintro (⟨cause, noText, rfl⟩ | ⟨text, holds, refused⟩)
    · exact .unreadable noText
    · cases read : Snapshot.readDocument? text with
      | none =>
        rw [read] at refused
        obtain rfl := Except.error.inj refused
        exact .rejected holds read
      | some snapshots =>
        rw [read] at refused
        cases refused
  · intro refuses
    cases refuses with
    | unreadable noText => exact Or.inl ⟨_, noText, rfl⟩
    | rejected holds noDocument =>
      refine Or.inr ⟨_, holds, ?_⟩
      rw [noDocument]
      rfl

theorem documentReport_eq_ok_iff (report : Report) :
    files.documentReport evaluator path = .ok report ↔
      ∃ snapshots, files.HasSnapshots path snapshots ∧ Report.ofSnapshots evaluator snapshots = report := by
  simp only [documentReport, bind_eq_ok_iff, snapshots_eq_ok_iff, pure, Except.pure, Except.ok.injEq]

theorem documentReport_eq_error_iff (failure : Failure) :
    files.documentReport evaluator path = .error failure ↔ files.RefusesDocument path failure := by
  simp [documentReport, bind_eq_error_iff, snapshots_eq_error_iff, pure, Except.pure]

/-- The file at the path is a document of some snapshots. -/
def IsDocument (files : Files) (path : String) : Prop :=
  ∃ snapshots, files.HasSnapshots path snapshots

theorem isDocument_iff_isSome :
    files.IsDocument path ↔ (files.documentReport evaluator path).toOption.isSome = true := by
  cases reported : files.documentReport evaluator path with
  | ok report =>
    obtain ⟨snapshots, holds, _⟩ := (documentReport_eq_ok_iff files evaluator path report).mp reported
    exact iff_of_true ⟨snapshots, holds⟩ rfl
  | error failure =>
    refine iff_of_false ?_ (by simp [Except.toOption])
    rintro ⟨snapshots, holds⟩
    have read := (documentReport_eq_ok_iff files evaluator path _).mpr ⟨snapshots, holds, rfl⟩
    rw [reported] at read
    cases read

instance : Decidable (files.IsDocument path) :=
  decidable_of_iff _ (files.isDocument_iff_isSome Evaluator.stock path).symm

end Documents

/-- The paths of the documents that an input stands for: those directly inside a directory, in the order of
their names. Any other input stands for itself. -/
def expansion (files : Files) (input : String) : List String :=
  match (files input).isDirectory, (files input).names with
  | true, .ok names => ((inOrder names).map (child input)).filter (files.IsDocument ·)
  | _, _ => [input]

theorem expansion_of_directory {files : Files} {input : String} {names : List String}
    (directory : (files input).isDirectory = true) (found : (files input).names = .ok names) :
    files.expansion input = ((inOrder names).map (child input)).filter (files.IsDocument ·) := by
  rw [expansion, directory, found]

/-- The reports on all inputs, one after the other. -/
def reports (files : Files) (evaluator : Evaluator) (inputs : List String) :
    Except Failure (List Report) :=
  (inputs.mapM (files.inputReports evaluator)).map List.flatten

section Reports

variable {files : Files} {evaluator : Evaluator}

theorem inputReports_of_listing {input : String} (directory : (files input).isDirectory = true) :
    files.inputReports evaluator input =
      ((files.listing input).map (List.filterMap fun name =>
        (files.documentReport evaluator (child input name)).toOption)).mapError (.unlistable input) := by
  rw [inputReports, directory, if_pos rfl]
  cases files.listing input <;> rfl

theorem inputReports_of_directory {input : String} {names : List String}
    (directory : (files input).isDirectory = true) (found : (files input).names = .ok names) :
    files.inputReports evaluator input = .ok ((inOrder names).filterMap fun name =>
      (files.documentReport evaluator (child input name)).toOption) := by
  rw [inputReports_of_listing directory, listing, found]
  rfl

theorem inputReports_of_unlistable {input : String} {cause : FileError}
    (directory : (files input).isDirectory = true) (failed : (files input).names = .error cause) :
    files.inputReports evaluator input = .error (.unlistable input cause) := by
  rw [inputReports_of_listing directory, listing, failed]
  rfl

theorem inputReports_of_named {input : String} (named : (files input).isDirectory = false) :
    files.inputReports evaluator input = (files.documentReport evaluator input).map fun report => [report] := by
  rw [inputReports, named, if_neg Bool.false_ne_true]
  cases files.documentReport evaluator input <;> rfl

theorem inputReports_eq_error_iff (input : String) (failure : Failure) :
    files.inputReports evaluator input = .error failure ↔ files.StopsAt input failure := by
  cases kind : (files input).isDirectory with
  | false =>
    rw [inputReports_of_named kind, map_eq_error_iff, documentReport_eq_error_iff]
    constructor
    · intro refused
      exact .document kind refused
    · intro stops
      cases stops with
      | document _ refused => exact refused
      | directory listed _ => rw [kind] at listed; cases listed
  | true =>
    cases found : (files input).names with
    | ok names =>
      rw [inputReports_of_directory kind found]
      refine iff_of_false (by simp) ?_
      intro stops
      cases stops with
      | document named _ => rw [kind] at named; cases named
      | directory _ failed => rw [found] at failed; cases failed
    | error cause =>
      rw [inputReports_of_unlistable kind found, Except.error.injEq]
      constructor
      · rintro rfl
        exact .directory kind found
      · intro stops
        cases stops with
        | document named _ => rw [kind] at named; cases named
        | directory _ failed => rw [found] at failed; cases failed; rfl

theorem reports_append (first second : List String) :
    files.reports evaluator (first ++ second) = do
      return (← files.reports evaluator first) ++ (← files.reports evaluator second) := by
  rw [reports, reports, reports, List.mapM_append]
  cases first.mapM (files.inputReports evaluator) with
  | error failure => rfl
  | ok earlier =>
    cases second.mapM (files.inputReports evaluator) with
    | error failure => rfl
    | ok later => exact congrArg Except.ok List.flatten_append

theorem reports_singleton (input : String) :
    files.reports evaluator [input] = files.inputReports evaluator input := by
  rw [reports, List.mapM_cons, List.mapM_nil]
  cases files.inputReports evaluator input with
  | error failure => rfl
  | ok found => exact congrArg Except.ok (List.append_nil found)

theorem Apart.named_of_hasSnapshots (apart : files.Apart) {path : String} {snapshots : List Snapshot}
    (holds : files.HasSnapshots path snapshots) : (files path).isDirectory = false := by
  obtain ⟨text, read, _⟩ := holds
  exact apart path _ read

theorem inputReports_of_hasSnapshots (apart : files.Apart) {path : String} {snapshots : List Snapshot}
    (holds : files.HasSnapshots path snapshots) :
    files.inputReports evaluator path = .ok [Report.ofSnapshots evaluator snapshots] := by
  have read := (documentReport_eq_ok_iff files evaluator path _).mpr ⟨snapshots, holds, rfl⟩
  rw [inputReports_of_named (apart.named_of_hasSnapshots holds), read]
  rfl

theorem reports_documents (apart : files.Apart) (paths : List String) :
    files.reports evaluator (paths.filter (files.IsDocument ·)) =
      .ok (paths.filterMap fun path => (files.documentReport evaluator path).toOption) := by
  induction paths with
  | nil => rfl
  | cons path rest ih =>
    rw [List.filter_cons, List.filterMap_cons]
    cases reported : files.documentReport evaluator path with
    | ok report =>
      obtain ⟨snapshots, holds, rfl⟩ := (documentReport_eq_ok_iff files evaluator path report).mp reported
      have document : files.IsDocument path := ⟨snapshots, holds⟩
      rw [if_pos (decide_eq_true document), ← List.singleton_append, reports_append, reports_singleton,
        inputReports_of_hasSnapshots apart holds, ih]
      rfl
    | error failure =>
      have other : ¬files.IsDocument path := by
        rw [isDocument_iff_isSome files evaluator, reported]
        exact Bool.false_ne_true
      rw [if_neg (by simpa using other), ih]
      rfl

/-- An input gives the reports on the documents that it stands for. -/
theorem reports_expansion (apart : files.Apart) (input : String) :
    files.reports evaluator (files.expansion input) = files.inputReports evaluator input := by
  unfold expansion
  split
  · rename_i names directory found
    rw [reports_documents apart, inputReports_of_directory directory found, List.filterMap_map]
    rfl
  · exact reports_singleton input

theorem reports_flatMap_expansion (apart : files.Apart) (inputs : List String) :
    files.reports evaluator (inputs.flatMap files.expansion) = files.reports evaluator inputs := by
  induction inputs with
  | nil => rfl
  | cons input rest ih =>
    rw [List.flatMap_cons, reports_append, reports_expansion apart, ih, ← List.singleton_append,
      reports_append, reports_singleton]

theorem reports_of_hasSnapshots (apart : files.Apart) {inputs : List String}
    {documents : List (List Snapshot)} (holds : List.Forall₂ files.HasSnapshots inputs documents) :
    files.reports evaluator inputs = .ok (documents.map (Report.ofSnapshots evaluator)) := by
  induction holds with
  | nil => rfl
  | cons here _ ih =>
    rw [← List.singleton_append, reports_append, reports_singleton,
      inputReports_of_hasSnapshots apart here, ih]
    rfl

theorem reports_eq_error_iff (inputs : List String) (failure : Failure) :
    files.reports evaluator inputs = .error failure ↔
      ∃ before input after, inputs = before ++ input :: after ∧
        (∀ earlier ∈ before, ∀ cause, ¬files.StopsAt earlier cause) ∧ files.StopsAt input failure := by
  simp only [reports, map_eq_error_iff, mapM_eq_error_iff, exists_eq_ok_iff, ne_eq, inputReports_eq_error_iff]

end Reports

/-! Files that are no documents -/

theorem hasSnapshots_iff_of_hasText {files : Files} {path : String} {text : List Char}
    (holds : files.HasText path text) (snapshots : List Snapshot) :
    files.HasSnapshots path snapshots ↔ Snapshot.readDocument? text = some snapshots := by
  constructor
  · rintro ⟨found, read, document⟩
    exact read.unique holds ▸ document
  · intro document
    exact ⟨text, holds, document⟩

theorem isDocument_iff_of_hasText {files : Files} {path : String} {text : List Char}
    (holds : files.HasText path text) :
    files.IsDocument path ↔ (Snapshot.readDocument? text).isSome = true := by
  simp only [IsDocument, hasSnapshots_iff_of_hasText holds, Option.isSome_iff_exists]

/-- The other files are these, and files in the directories among the inputs that are no documents. -/
structure AddsBadFiles (files other : Files) (inputs : List String) : Prop where
  directories : ∀ path, (other path).isDirectory = (files path).isDirectory
  documents : ∀ path snapshots, other.HasSnapshots path snapshots ↔ files.HasSnapshots path snapshots
  listings : ∀ input ∈ inputs, ∀ names, (files input).names = .ok names →
    ∃ longer added, (other input).names = .ok longer ∧ longer.Perm (added ++ names) ∧
      ∀ name ∈ added, ¬other.IsDocument (child input name)

section BadFiles

variable {files other : Files} {evaluator : Evaluator} {inputs : List String}

theorem AddsBadFiles.documentReport_eq_ok_iff (adds : files.AddsBadFiles other inputs) (path : String)
    (report : Report) : other.documentReport evaluator path = .ok report ↔
      files.documentReport evaluator path = .ok report := by
  simp only [Files.documentReport_eq_ok_iff, adds.documents]

/-- What is read from the names in a directory is read from those that give something. -/
theorem filterMap_inOrder_of_perm {α : Type} {read : String → Option α} {names longer added : List String}
    (perm : longer.Perm (added ++ names)) (nothing : ∀ name ∈ added, read name = none) :
    (inOrder longer).filterMap read = (inOrder names).filterMap read := by
  have useful : ∀ names : List String, names.filterMap read =
      (names.filter fun name => (read name).isSome).filterMap read := by
    intro names
    rw [List.filterMap_filter]
    apply List.filterMap_congr
    intro name _
    cases read name <;> rfl
  have none : added.filter (fun name => (read name).isSome) = [] := by
    rw [List.filter_eq_nil_iff]
    intro name inside
    simp [nothing name inside]
  have kept := perm.filter fun name => (read name).isSome
  rw [List.filter_append, none, List.nil_append] at kept
  rw [useful, useful (inOrder names), ← inOrder_filter, ← inOrder_filter, inOrder_eq_of_perm kept]

theorem AddsBadFiles.inputReports_eq (adds : files.AddsBadFiles other inputs) {input : String}
    (inside : input ∈ inputs) {found : List Report}
    (success : files.inputReports evaluator input = .ok found) :
    other.inputReports evaluator input = .ok found := by
  have kind := adds.directories input
  cases named : (files input).isDirectory with
  | false =>
    rw [named] at kind
    rw [inputReports_of_named named] at success
    obtain ⟨report, read, rfl⟩ := map_eq_ok_iff.mp success
    rw [inputReports_of_named kind, (adds.documentReport_eq_ok_iff input report).mpr read]
    rfl
  | true =>
    rw [named] at kind
    cases listed : (files input).names with
    | error cause =>
      rw [inputReports_of_unlistable named listed] at success
      cases success
    | ok names =>
      obtain ⟨longer, added, listedNow, perm, bad⟩ := adds.listings input inside names listed
      have nothing : ∀ name ∈ added,
          (other.documentReport evaluator (child input name)).toOption = none := by
        intro name new
        have other := (isDocument_iff_isSome other evaluator _).not.mp (bad name new)
        exact Option.not_isSome_iff_eq_none.mp other
      rw [inputReports_of_directory named listed] at success
      rw [inputReports_of_directory kind listedNow, filterMap_inOrder_of_perm perm nothing, ← success]
      apply congrArg Except.ok
      apply List.filterMap_congr
      intro name _
      exact toOption_congr (adds.documentReport_eq_ok_iff (child input name))

theorem AddsBadFiles.reports_eq (adds : files.AddsBadFiles other inputs) {found : List Report}
    (success : files.reports evaluator inputs = .ok found) :
    other.reports evaluator inputs = .ok found := by
  obtain ⟨parts, each, _⟩ := map_eq_ok_iff.mp success
  have same : inputs.mapM (other.inputReports evaluator) = inputs.mapM (files.inputReports evaluator) := by
    apply mapM_congr
    intro input inside
    obtain ⟨reports, _, read⟩ := exists_of_mapM_eq_ok each inside
    rw [read, adds.inputReports_eq inside read]
  rw [reports, same]
  exact success

end BadFiles

/-- A new file in a tree whose bytes are those of no document is a bad file. -/
theorem addsBadFiles_of_write {tree after : FileTree} {path : String} {bytes : ByteArray}
    {inputs : List String} (writes : tree.write path bytes = .ok after)
    (new : ∀ found, (tree.finding path).bytes ≠ .ok found)
    (bad : ∀ text, (String.ofList text).toUTF8 = bytes → Snapshot.readDocument? text = none)
    (paths : ∀ input ∈ inputs, input ≠ "") : AddsBadFiles tree.finding after.finding inputs := by
  obtain ⟨directory, name, written⟩ := FileTree.exists_written writes
  have changes := written.changes
  have absent : tree.bytes? (directory ++ [name]) = none := by
    rw [Option.eq_none_iff_forall_ne_some]
    intro before known
    exact new before ((tree.bytes_finding_eq_ok_iff path before).mpr ⟨_, written.leads, known⟩)
  have refused : ∀ other text snapshots, tree.locate other = .ok (directory ++ [name]) →
      HasText after.finding other text → Snapshot.readDocument? text ≠ some snapshots := by
    intro other text snapshots leads holds
    obtain ⟨place, leadsNow, known⟩ := (FileTree.bytes_finding_eq_ok_iff _ other _).mp holds
    rw [changes.locate_eq_ok_iff, leads] at leadsNow
    rw [← Except.ok.inj leadsNow, changes.holds] at known
    rw [bad text (Option.some.inj known).symm]
    exact Option.some_ne_none snapshots ∘ Eq.symm
  refine ⟨changes.isDirectory_finding, ?_, ?_⟩
  · intro other snapshots
    apply exists_congr
    intro text
    apply and_congr_left
    intro document
    by_cases here : tree.locate other = .ok (directory ++ [name])
    · refine iff_of_false (fun holds => refused other text snapshots here holds document) ?_
      intro held
      obtain ⟨place, leads, known⟩ := (tree.bytes_finding_eq_ok_iff other _).mp held
      rw [here] at leads
      rw [← Except.ok.inj leads, absent] at known
      cases known
    · exact changes.bytes_finding_of_ne here _
  · intro input inside names listed
    obtain ⟨place, leads, kind, rfl⟩ := (tree.names_finding_eq_ok_iff input names).mp listed
    have listedNow : (after.finding input).names = .ok (after.names place) :=
      (after.names_finding_eq_ok_iff input _).mpr
        ⟨place, (changes.locate_eq_ok_iff input place).mpr leads, (changes.directories place).trans kind, rfl⟩
    by_cases around : place = directory
    · subst around
      rw [written.names_of_new absent] at listedNow
      refine ⟨_, [name], listedNow, .refl _, ?_⟩
      rintro other new ⟨snapshots, text, holds, document⟩
      obtain rfl := List.mem_singleton.mp new
      have inward := FileTree.locate_child (paths input inside) written.proper leads kind
      exact refused _ text snapshots inward holds document
    · rw [written.names_eq, if_neg around] at listedNow
      exact ⟨_, [], listedNow, .refl _, by simp⟩

section Classify

variable {files : Files} {evaluator : Evaluator}

theorem classify_of_valid {settings : Settings} (valid : Evaluator.ofSettings settings = .ok evaluator)
    (inputs : List String) : files.classify settings inputs =
      (files.reports evaluator inputs).map fun reports => reports.foldl Report.extend {} := by
  rw [classify, valid, reports]
  change (inputs.mapM (files.inputReports evaluator) >>= fun reports =>
    pure (reports.flatten.foldl Report.extend {})) = _
  cases inputs.mapM (files.inputReports evaluator) <;> rfl

theorem classify_flatMap_expansion (apart : files.Apart) {settings : Settings}
    (valid : Evaluator.ofSettings settings = .ok evaluator) (inputs : List String) :
    files.classify settings (inputs.flatMap files.expansion) = files.classify settings inputs := by
  rw [classify_of_valid valid, classify_of_valid valid, reports_flatMap_expansion apart]

theorem classify_of_hasSnapshots (apart : files.Apart) {settings : Settings}
    (valid : Evaluator.ofSettings settings = .ok evaluator) {inputs : List String}
    {documents : List (List Snapshot)} (holds : List.Forall₂ files.HasSnapshots inputs documents) :
    files.classify settings inputs = .ok (Report.ofSnapshots evaluator documents.flatten) := by
  rw [classify_of_valid valid, reports_of_hasSnapshots apart holds, ← Report.foldl_extend_ofSnapshots]
  rfl

theorem classify_eq_error_iff {settings : Settings}
    (valid : Evaluator.ofSettings settings = .ok evaluator) (inputs : List String) (failure : Failure) :
    files.classify settings inputs = .error failure ↔
      ∃ before input after, inputs = before ++ input :: after ∧
        (∀ earlier ∈ before, ∀ cause, ¬files.StopsAt earlier cause) ∧ files.StopsAt input failure := by
  rw [classify_of_valid valid, map_eq_error_iff, reports_eq_error_iff]

theorem AddsBadFiles.classify_eq {settings : Settings} {other : Files} {inputs : List String}
    (adds : files.AddsBadFiles other inputs) (valid : Evaluator.ofSettings settings = .ok evaluator)
    {report : Report} (success : files.classify settings inputs = .ok report) :
    other.classify settings inputs = .ok report := by
  rw [classify_of_valid valid] at success ⊢
  obtain ⟨reports, read, rfl⟩ := map_eq_ok_iff.mp success
  rw [adds.reports_eq read]
  rfl

theorem classify_append {settings : Settings} (valid : Evaluator.ofSettings settings = .ok evaluator)
    (first second : List String) : files.classify settings (first ++ second) = do
      return (← files.classify settings first).extend (← files.classify settings second) := by
  rw [classify_of_valid valid, classify_of_valid valid, classify_of_valid valid, reports_append]
  cases files.reports evaluator first with
  | error failure => rfl
  | ok earlier =>
    cases files.reports evaluator second with
    | error failure => rfl
    | ok later =>
      have joined : (earlier ++ later).foldl Report.extend {} =
          (earlier.foldl Report.extend {}).extend (later.foldl Report.extend {}) := by
        rw [List.foldl_append, Report.foldl_extend]
      exact congrArg Except.ok joined

end Classify

end Files

/-- A directory stands for the documents inside it, and the report on documents is that on all of their
snapshots. A classification stops at the first input that is no document and no directory. Files that are
no documents may come into directories, and inputs may be classified in two parts. -/
theorem classification_expands_directories {files : Files} (apart : files.Apart) {profile : Profile}
    {evaluator : Evaluator} (valid : Evaluator.ofSettings profile.settings.verdict = .ok evaluator) :
    (∀ inputs, (Task.classify inputs).result files profile =
      (Task.classify (inputs.flatMap files.expansion)).result files profile) ∧
    (∀ inputs documents, List.Forall₂ files.HasSnapshots inputs documents →
      (Task.classify inputs).result files profile =
        .ok (reportText (Report.ofSnapshots evaluator documents.flatten).toJson)) ∧
    (∀ inputs failure, (Task.classify inputs).result files profile = .error failure ↔
      ∃ before input after, inputs = before ++ input :: after ∧
        (∀ earlier ∈ before, ∀ cause, ¬files.StopsAt earlier cause) ∧ files.StopsAt input failure) ∧
    (∀ inputs other text, files.AddsBadFiles other inputs →
      (Task.classify inputs).result files profile = .ok text →
      (Task.classify inputs).result other profile = .ok text) ∧
    ∀ first second, files.classify profile.settings.verdict (first ++ second) = do
      return (← files.classify profile.settings.verdict first).extend
        (← files.classify profile.settings.verdict second) := by
  refine ⟨?_, ?_, ?_, ?_, Files.classify_append valid⟩
  · intro inputs
    rw [Task.result, Task.result, Files.classify_flatMap_expansion apart valid]
  · intro inputs documents holds
    rw [Task.result, Files.classify_of_hasSnapshots apart valid holds]
    rfl
  · intro inputs failure
    rw [Task.result, map_eq_error_iff, Files.classify_eq_error_iff valid]
  · intro inputs other text adds success
    obtain ⟨report, classified, rfl⟩ := map_eq_ok_iff.mp success
    rw [Task.result, adds.classify_eq valid classified]
    rfl

/-- A directory with a document and a file that is none, beside a second document; then a third file that
is none comes into the directory. -/
theorem classification_of_mixed_inputs :
    let document := "[[[[10,2,0,1,1]]]]".toList
    let bytes := (String.ofList document).toUTF8
    let tree : FileTree :=
      { files := [(["d", "b"], bytes), (["d", "a"], "?".toUTF8), (["c"], bytes)] }
    let files : Files := tree.finding
    let result := fun inputs (files : Files) => (Task.classify inputs).result files {}
    let part := Report.ofSnapshots Evaluator.stock [⟨10, 2, 0, 1, 1⟩]
    let whole := Report.ofSnapshots Evaluator.stock [⟨10, 2, 0, 1, 1⟩, ⟨10, 2, 0, 1, 1⟩]
    result ["d", "c"] files = result ["d/b", "c"] files ∧
      result ["d/b", "c"] files = .ok (reportText whole.toJson) ∧
      result ["d", "gone", "c"] files = .error (.unreadable .snapshots "gone" .missing) ∧
      (∃ after, tree.write "d/z" "?".toUTF8 = .ok after ∧
        result ["d", "c"] after.finding = .ok (reportText whole.toJson)) ∧
      files.classify {} (["d"] ++ ["c"]) = .ok (part.extend part) := by
  intro document bytes tree files result part whole
  have apart : files.Apart := FileTree.apart_finding (by decide)
  have valid : Evaluator.ofSettings (Profile.settings {}).verdict = .ok Evaluator.stock := rfl
  obtain ⟨expands, joins, stops, ignores, parts⟩ := classification_expands_directories apart valid
  have read : Snapshot.readDocument? document = some [⟨10, 2, 0, 1, 1⟩] := by decide +kernel
  have first : files.HasSnapshots "d/b" [⟨10, 2, 0, 1, 1⟩] := ⟨document, rfl, read⟩
  have second : files.HasSnapshots "c" [⟨10, 2, 0, 1, 1⟩] := ⟨document, rfl, read⟩
  have refused : Snapshot.readDocument? "?".toList = none := by decide +kernel
  have third : ¬files.IsDocument "d/a" := by
    have holds : files.HasText "d/a" "?".toList := rfl
    rw [Files.isDocument_iff_of_hasText holds, refused]
    exact Bool.false_ne_true
  have inside : files.expansion "d" = ["d/b"] := by
    have names : (files "d").names = .ok ["b", "a"] := rfl
    have listed : inOrder ["b", "a"] = ["a", "b"] := (eq_inOrder (by decide) (by decide)).symm
    have children : ["a", "b"].map (child "d") = ["d/a", "d/b"] := by decide
    have usable : files.IsDocument "d/b" := ⟨_, first⟩
    rw [Files.expansion_of_directory rfl names, listed, children,
      List.filter_cons_of_neg (by simpa using third),
      List.filter_cons_of_pos (by simpa using usable), List.filter_nil]
  have named : files.expansion "c" = ["c"] := rfl
  have report : result ["d/b", "c"] files = .ok (reportText whole.toJson) :=
    joins ["d/b", "c"] [[⟨10, 2, 0, 1, 1⟩], [⟨10, 2, 0, 1, 1⟩]] (.cons first (.cons second .nil))
  have expanded : result ["d", "c"] files = result ["d/b", "c"] files := by
    have same := expands ["d", "c"]
    rwa [List.flatMap_cons, List.flatMap_cons, inside, named] at same
  refine ⟨expanded, report, ?_, ?_, ?_⟩
  · refine (stops _ _).mpr ⟨["d"], "gone", ["c"], rfl, ?_, .document rfl (.unreadable (.unreadable rfl))⟩
    intro earlier inside cause stopped
    obtain rfl := List.mem_singleton.mp inside
    cases stopped with
    | document named _ => cases named
    | directory _ failed => cases failed
  · have writes : tree.write "d/z" "?".toUTF8 = .ok (tree.put ["d", "z"] "?".toUTF8) := rfl
    refine ⟨_, writes, ignores _ _ _ (Files.addsBadFiles_of_write writes ?_ ?_ ?_) (expanded.trans report)⟩
    · intro found present
      cases present
    · intro text same
      obtain rfl : text = "?".toList := String.ofList_injective (String.toByteArray_inj.mp same)
      exact refused
    · decide
  · have left : files.classify (Profile.settings {}).verdict ["d"] = .ok part := by
      have same := Files.classify_flatMap_expansion apart valid ["d"]
      rw [List.flatMap_singleton, inside] at same
      exact same.symm.trans (Files.classify_of_hasSnapshots apart valid (.cons first .nil))
    have right : files.classify (Profile.settings {}).verdict ["c"] = .ok part :=
      Files.classify_of_hasSnapshots apart valid (.cons second .nil)
    have joined := parts ["d"] ["c"]
    rw [left, right] at joined
    exact joined

end FlowAudit.Command
