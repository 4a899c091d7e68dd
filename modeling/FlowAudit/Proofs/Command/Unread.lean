import FlowAudit.Proofs.Command.Findings
import FlowAudit.Proofs.Command.TreeChanges
import FlowAudit.Proofs.Command.Words

set_option autoImplicit false

/-!
Files that a task does not read. What they hold may change, and one that was not there may come: the task
finds what it found before (`findsSame_of_agreeBut`, `findsSame_of_written`).
-/
namespace FlowAudit.Command

section Hidden

variable {hidden : List String → Prop} {tree tree' : FileTree}

theorem sameInside_of_agreeBut (agree : tree.AgreeBut hidden tree') {directory : String}
    {kept : String → Bool} (unread : ∀ path ∈ Files.pathsInside tree.finding directory kept,
      ∀ place, tree.locate path = .ok place → ¬hidden place) :
    Files.SameInside tree.finding tree'.finding directory kept where
  listing := by rw [agree.listing_eq]
  texts names found name listed keeps text := by
    obtain ⟨given, known, rfl⟩ := map_eq_ok_iff.mp found
    have inside := Files.mem_pathsInside known ((inOrder_perm given).mem_iff.mp listed) keeps
    rw [← Files.text_eq_ok_iff, ← Files.text_eq_ok_iff, agree.text_eq (unread _ inside)]

theorem findsSame_of_agreeBut (agree : tree.AgreeBut hidden tree') {task : Task} {profile : Profile}
    (unread : ∀ path ∈ task.reads profile tree.finding,
      ∀ place, tree.locate path = .ok place → ¬hidden place) :
    task.FindsSame profile tree.finding tree'.finding := by
  cases task with
  | extract traces => exact fun path inside => agree.text_eq (unread path inside)
  | classify inputs =>
    intro input inside
    refine ⟨agree.isDirectory_finding input, ?_⟩
    split
    · rename_i listed
      apply sameInside_of_agreeBut agree
      exact fun path here => unread path (mem_reads_of_listed profile inside listed here)
    · rename_i other
      have named := Bool.eq_false_iff.mpr other
      exact agree.text_eq (unread input (mem_reads_of_named profile inside named))
  | completion directory packets => exact sameInside_of_agreeBut agree unread

end Hidden

section Written

variable {tree after : FileTree} {path : String} {bytes : ByteArray} {directory : List String}
  {name : String} (written : tree.Written after path bytes directory name)

include written

theorem hasText_of_written {other : String} (elsewhere : tree.locate other ≠ .ok (directory ++ [name]))
    (text : List Char) :
    Files.HasText after.finding other text ↔ Files.HasText tree.finding other text :=
  written.changes.bytes_finding_of_ne elsewhere _

theorem text_eq_of_written {other : String} (elsewhere : tree.locate other ≠ .ok (directory ++ [name]))
    {text : List Char} (holds : Files.HasText tree.finding other text) :
    Files.text after.finding other = Files.text tree.finding other := by
  have again := (hasText_of_written written elsewhere text).mpr holds
  exact ((Files.text_eq_ok_iff _ other text).mpr again).trans
    ((Files.text_eq_ok_iff _ other text).mpr holds).symm

/-- The files in a directory are the same ones as far as they are kept, if the new file is not. -/
theorem sameInside_of_written {other : String} {kept : String → Bool} (some : other ≠ "")
    {names : List String} (listed : (tree.finding other).names = .ok names)
    (unread : ∀ read ∈ Files.pathsInside after.finding other kept,
      tree.locate read ≠ .ok (directory ++ [name])) :
    Files.SameInside tree.finding after.finding other kept := by
  have changes := written.changes
  obtain ⟨around, leads, kind, rfl⟩ := (tree.names_finding_eq_ok_iff other names).mp listed
  have listed' : (after.finding other).names = .ok (after.names around) :=
    (after.names_finding_eq_ok_iff other _).mpr
      ⟨around, (changes.locate_eq_ok_iff other around).mpr leads, (changes.directories around).trans kind, rfl⟩
  have filtered : (after.names around).filter kept = (tree.names around).filter kept := by
    apply written.filter_names
    -- A new file in this directory that is kept would be one of those that are read.
    rintro rfl
    by_contra keeps
    rw [Bool.not_eq_false] at keeps
    exact unread _ (Files.mem_pathsInside listed' written.mem_names keeps)
      (FileTree.locate_child some written.proper leads kind)
  constructor
  · have listings : ∀ (files : Files) (names : List String), (files other).names = .ok names →
        (files.listing other).map (List.filter kept) = .ok (inOrder (names.filter kept)) := by
      intro files names found
      rw [inOrder_filter, Files.listing, found]
      rfl
    rw [listings _ _ listed', listings _ _ listed, filtered]
  · intro sorted found here known keeps
    rw [Files.listing, listed] at found
    obtain rfl := Except.ok.inj found
    have before := List.mem_filter.mpr ⟨(inOrder_perm _).mem_iff.mp known, keeps⟩
    have still := (List.mem_filter.mp (filtered ▸ before)).1
    exact hasText_of_written written (unread _ (Files.mem_pathsInside listed' still keeps))

/-- A task that has a result finds what it needs again when the new file is not one of those that it
reads. -/
theorem findsSame_of_written {task : Task} {profile : Profile} {text : List Char}
    (named : ∀ path ∈ task.paths, path ≠ "") (gives : task.result tree.finding profile = .ok text)
    (unread : ∀ read ∈ task.reads profile after.finding, tree.locate read ≠ .ok (directory ++ [name])) :
    task.FindsSame profile tree.finding after.finding := by
  cases task with
  | extract traces =>
    obtain ⟨table, success, _⟩ := map_eq_ok_iff.mp gives
    intro path inside
    obtain ⟨text, holds⟩ := Files.exists_hasText_of_extract success path inside
    exact text_eq_of_written written (unread path inside) holds
  | classify inputs =>
    obtain ⟨report, success, _⟩ := map_eq_ok_iff.mp gives
    obtain ⟨evaluator, each⟩ := Files.exists_inputReports_of_classify success
    intro input inside
    obtain ⟨reports, read⟩ := each input inside
    have kind := written.changes.isDirectory_finding input
    refine ⟨kind, ?_⟩
    split
    · rename_i listed
      obtain ⟨names, found⟩ := Files.exists_names_of_inputReports listed read
      apply sameInside_of_written written (named input inside) found
      exact fun path here => unread path (mem_reads_of_listed profile inside (kind.trans listed) here)
    · rename_i other
      have single := Bool.eq_false_iff.mpr other
      obtain ⟨text, holds⟩ := Files.exists_hasText_of_inputReports single read
      exact text_eq_of_written written
        (unread input (mem_reads_of_named profile inside (kind.trans single))) holds
  | completion directory packets =>
    obtain ⟨report, success, _⟩ := map_eq_ok_iff.mp gives
    obtain ⟨names, found⟩ := Files.exists_names_of_completion success
    exact sameInside_of_written written (named _ List.mem_cons_self) found unread

theorem profile_of_written {config : Option String} {profile : Profile}
    (read : Files.profile tree.finding config = .ok profile)
    (unread : ∀ path ∈ config.toList, tree.locate path ≠ .ok (directory ++ [name])) :
    Files.profile after.finding config = .ok profile := by
  cases config with
  | none => exact read
  | some path =>
    obtain ⟨text, found, _⟩ := bind_eq_ok_iff.mp read
    have holds := (Files.text_eq_ok_iff _ path text).mp (mapError_eq_ok_iff.mp found)
    have same := text_eq_of_written written (unread path (by simp)) holds
    rw [Files.profile, Files.readAs, same]
    exact read

/-- A request gives its result again when the new file is not one of those that it reads. -/
theorem result_of_written {request : Request} {text : List Char}
    (named : ∀ path ∈ request.task.paths, path ≠ "") (gives : request.result tree.finding = .ok text)
    (unread : ∀ read ∈ request.reads after.finding, tree.locate read ≠ .ok (directory ++ [name])) :
    request.result after.finding = .ok text := by
  obtain ⟨profile, read, gives⟩ := bind_eq_ok_iff.mp gives
  have again : Files.profile after.finding request.config = .ok profile :=
    profile_of_written written read fun path config => unread path (List.mem_append_left _ config)
  have others : ∀ read ∈ request.task.reads profile after.finding,
      tree.locate read ≠ .ok (directory ++ [name]) := by
    intro path here
    apply unread
    rw [Request.reads, again]
    exact List.mem_append_right _ here
  rw [Request.result, again]
  exact (Task.result_of_findsSame (findsSame_of_written written named gives others)).trans gives

end Written

end FlowAudit.Command
