import FlowAudit.Proofs.Command.FileTree

set_option autoImplicit false

/-!
Trees that change. A file that is written takes the place to which its path leads and leaves every other
file and every directory as it is (`Written.changes`). Trees may also differ in what some of their files
hold, and no path leads elsewhere for that (`AgreeBut.locate_eq`).
-/
namespace FlowAudit.Command.FileTree

/-! Written files -/

/-- The tree with a file at the place. -/
def put (tree : FileTree) (place : List String) (bytes : ByteArray) : FileTree :=
  { tree with files := (place, bytes) :: tree.files.filter fun file => file.1 != place }

theorem write_eq_ok_iff (tree after : FileTree) (path : String) (bytes : ByteArray) :
    tree.write path bytes = .ok after ↔
      ∃ place, tree.target path = .ok place ∧ tree.put place bytes = after :=
  map_eq_ok_iff

theorem write_eq_error_iff (tree : FileTree) (path : String) (bytes : ByteArray) (cause : FileError) :
    tree.write path bytes = .error cause ↔ tree.target path = .error cause :=
  map_eq_error_iff

/-- The trees have the same directories and the same files, but for the file at the place. -/
structure ChangesOnly (before after : FileTree) (place : List String) (bytes : ByteArray) : Prop where
  holds : after.bytes? place = some bytes
  files : ∀ other, other ≠ place → after.bytes? other = before.bytes? other
  directories : ∀ other, after.isDirectory other = before.isDirectory other
  workingDirectory : after.workingDirectory = before.workingDirectory

theorem lookup_filter_ne {place other : List String} (different : other ≠ place)
    (files : List (List String × ByteArray)) :
    (files.filter fun file => file.1 != place).lookup other = files.lookup other := by
  induction files with
  | nil => rfl
  | cons file rest ih =>
    obtain ⟨here, bytes⟩ := file
    by_cases same : here = place
    · subst same
      have apart : (other == here) = false := beq_eq_false_iff_ne.mpr different
      rw [List.filter_cons_of_neg (by simp), List.lookup_cons, apart, ih]
    · rw [List.filter_cons_of_pos (by simpa using same), List.lookup_cons, List.lookup_cons, ih]

theorem isDirectory_put {tree : FileTree} {directory : List String} (name : String)
    (inside : tree.isDirectory directory = true) (bytes : ByteArray) (place : List String) :
    (tree.put (directory ++ [name]) bytes).isDirectory place = tree.isDirectory place := by
  rw [Bool.eq_iff_iff]
  constructor
  · intro after
    rw [isDirectory_iff] at after
    rcases after with rfl | listed | ⟨file, known, deeper, longer⟩
    · exact (isDirectory_iff _ _).mpr (Or.inl rfl)
    · exact (isDirectory_iff _ _).mpr (Or.inr (Or.inl listed))
    · rcases List.mem_cons.mp known with rfl | kept
      · -- What is above the new file is above its directory.
        have around : place.length ≤ directory.length := by
          simp only [List.length_append, List.length_cons, List.length_nil] at longer
          omega
        exact isDirectory_of_prefix inside
          (List.prefix_of_prefix_length_le deeper (List.prefix_append _ _) around)
      · exact (isDirectory_iff _ _).mpr
          (Or.inr (Or.inr ⟨file, List.mem_of_mem_filter kept, deeper, longer⟩))
  · intro before
    rw [isDirectory_iff] at before ⊢
    rcases before with rfl | listed | ⟨file, known, deeper, longer⟩
    · exact Or.inl rfl
    · exact Or.inr (Or.inl listed)
    · refine Or.inr (Or.inr ?_)
      by_cases replaced : file.1 = directory ++ [name]
      · rw [replaced] at deeper longer
        exact ⟨_, List.mem_cons_self, deeper, longer⟩
      · have kept : file ∈ tree.files.filter fun file => file.1 != directory ++ [name] :=
          List.mem_filter.mpr ⟨known, by simpa using replaced⟩
        exact ⟨file, List.mem_cons_of_mem _ kept, deeper, longer⟩

namespace ChangesOnly

variable {before after : FileTree} {place : List String} {bytes : ByteArray}

theorem follow_eq_ok_iff (changes : before.ChangesOnly after place bytes) (start target : List String)
    (steps : List String) : after.follow start steps = .ok target ↔ before.follow start steps = .ok target := by
  induction steps generalizing start with
  | nil => rfl
  | cons step rest ih =>
    rw [follow_cons, follow_cons, changes.directories]
    split
    · exact ih _
    · simp

theorem locate_eq_ok_iff (changes : before.ChangesOnly after place bytes) (path : String)
    (target : List String) : after.locate path = .ok target ↔ before.locate path = .ok target := by
  rw [locate, locate, start, start, changes.workingDirectory]
  exact changes.follow_eq_ok_iff _ _ _

theorem isDirectory_finding (changes : before.ChangesOnly after place bytes) (path : String) :
    (after.finding path).isDirectory = (before.finding path).isDirectory := by
  rw [Bool.eq_iff_iff, isDirectory_finding_iff, isDirectory_finding_iff]
  simp only [changes.locate_eq_ok_iff, changes.directories]

theorem bytes_finding_of_ne (changes : before.ChangesOnly after place bytes) {path : String}
    (elsewhere : before.locate path ≠ .ok place) (found : ByteArray) :
    (after.finding path).bytes = .ok found ↔ (before.finding path).bytes = .ok found := by
  rw [bytes_finding_eq_ok_iff, bytes_finding_eq_ok_iff]
  apply exists_congr
  intro target
  rw [changes.locate_eq_ok_iff]
  apply and_congr_right
  rintro leads
  have different : target ≠ place := by
    rintro rfl
    exact elsewhere leads
  rw [changes.files target different]

end ChangesOnly

/-- The names in the directory of a new file are those of the other files in it, and its own. -/
theorem names_put (tree : FileTree) (directory : List String) (name : String) (bytes : ByteArray)
    (place : List String) : (tree.put (directory ++ [name]) bytes).names place =
      if place = directory then name :: (tree.names place).filter (· != name) else tree.names place := by
  have others : (tree.files.filter fun file => file.1 != directory ++ [name]).filterMap (fun file =>
        file.1.getLast?.bind fun last => if file.1.dropLast = place then some last else none) =
      if place = directory then (tree.names place).filter (· != name) else tree.names place := by
    rw [names_eq, List.filter_filterMap, List.filterMap_filter]
    split
    · rename_i here
      subst here
      apply List.filterMap_congr
      intro file _
      rcases List.eq_nil_or_concat file.1 with none | ⟨around, last, whole⟩
      · simp [none]
      · by_cases inside : around = place
        · by_cases same : last = name <;> simp [whole, inside, same, Option.filter_some]
        · simp [whole, inside]
    · rename_i elsewhere
      apply List.filterMap_congr
      intro file _
      split
      · rfl
      · rename_i replaced
        have same : file.1 = directory ++ [name] := by simpa using replaced
        simp [same, Ne.symm elsewhere]
  rw [names_eq, put, List.filterMap_cons, others]
  by_cases here : place = directory
  · subst here
    simp
  · simp [here, Ne.symm here]

/-- The bytes were written to the file to which the path leads. -/
structure Written (tree after : FileTree) (path : String) (bytes : ByteArray) (directory : List String)
    (name : String) : Prop extends IsTarget tree path directory name where
  result : after = tree.put (directory ++ [name]) bytes

theorem exists_written {tree after : FileTree} {path : String} {bytes : ByteArray}
    (writes : tree.write path bytes = .ok after) :
    ∃ directory name, tree.Written after path bytes directory name := by
  obtain ⟨place, found, result⟩ := (write_eq_ok_iff tree after path bytes).mp writes
  obtain ⟨directory, name, rfl, target⟩ := exists_isTarget found
  exact ⟨directory, name, target, result.symm⟩

namespace Written

variable {tree after : FileTree} {path : String} {bytes : ByteArray} {directory : List String}
  {name : String}

theorem changes (written : tree.Written after path bytes directory name) :
    tree.ChangesOnly after (directory ++ [name]) bytes := by
  obtain ⟨target, rfl⟩ := written
  refine ⟨List.lookup_cons_self, ?_, isDirectory_put name target.inside bytes, rfl⟩
  intro other different
  have apart : (other == directory ++ [name]) = false := beq_eq_false_iff_ne.mpr different
  rw [bytes?, put, List.lookup_cons, apart]
  exact lookup_filter_ne different tree.files

theorem content (written : tree.Written after path bytes directory name) :
    (after.finding path).bytes = .ok bytes := by
  have leads := (written.changes.locate_eq_ok_iff path _).mpr written.leads
  exact (bytes_finding_eq_ok_iff after path bytes).mpr ⟨_, leads, written.changes.holds⟩

theorem names_eq (written : tree.Written after path bytes directory name) (place : List String) :
    after.names place =
      if place = directory then name :: (tree.names place).filter (· != name) else tree.names place := by
  rw [written.result]
  exact names_put tree directory name bytes place

theorem mem_names (written : tree.Written after path bytes directory name) :
    name ∈ after.names directory := by
  rw [written.names_eq, if_pos rfl]
  exact List.mem_cons_self

theorem names_of_new (written : tree.Written after path bytes directory name)
    (new : tree.bytes? (directory ++ [name]) = none) : after.names directory = name :: tree.names directory := by
  have kept : (tree.names directory).filter (· != name) = tree.names directory := by
    rw [List.filter_eq_self]
    intro other inside
    rw [bne_iff_ne]
    rintro rfl
    exact bytes?_ne_none_of_mem_names inside new
  rw [written.names_eq, if_pos rfl, kept]

/-- The names that are kept are the same ones when the name of the file is not among them. -/
theorem filter_names (written : tree.Written after path bytes directory name) {kept : String → Bool}
    {place : List String} (skipped : place = directory → kept name = false) :
    (after.names place).filter kept = (tree.names place).filter kept := by
  rw [written.names_eq]
  split
  · rename_i here
    have other : ∀ listed, (kept listed && listed != name) = kept listed := by
      intro listed
      by_cases same : listed = name
      · rw [same, skipped here, Bool.false_and]
      · rw [bne_iff_ne.mpr same, Bool.and_true]
    rw [List.filter_cons_of_neg (by simp [skipped here]), List.filter_filter]
    simp only [other]
  · rfl

end Written

/-! Trees that differ in some files -/

/-- The trees have the same directories and the same files, and the files that are not hidden have the same
bytes. -/
structure AgreeBut (hidden : List String → Prop) (first second : FileTree) : Prop where
  bytes : ∀ place, ¬hidden place → second.bytes? place = first.bytes? place
  files : ∀ place, (second.bytes? place).isSome = (first.bytes? place).isSome
  directories : ∀ place, second.isDirectory place = first.isDirectory place
  names : ∀ place, (second.names place).Perm (first.names place)
  workingDirectory : second.workingDirectory = first.workingDirectory

/-- What is in one file is hidden where the other files are the same. -/
theorem agreeBut_of_bytes (tree : FileTree) (place : List String) (first second : ByteArray)
    (rest : List (List String × ByteArray)) :
    AgreeBut (· = place) { tree with files := (place, first) :: rest }
      { tree with files := (place, second) :: rest } where
  bytes other shown := by
    have apart : (other == place) = false := beq_eq_false_iff_ne.mpr shown
    simp only [bytes?, List.lookup_cons, apart]
  files other := by
    simp only [bytes?, List.lookup_cons]
    cases other == place <;> rfl
  directories _ := rfl
  names _ := .refl _
  workingDirectory := rfl

namespace AgreeBut

variable {hidden : List String → Prop} {first second : FileTree}

theorem noDirectory_eq (agree : first.AgreeBut hidden second) (place : List String) :
    second.noDirectory place = first.noDirectory place := by
  rw [noDirectory, noDirectory, agree.files]

theorem follow_eq (agree : first.AgreeBut hidden second) (place steps : List String) :
    second.follow place steps = first.follow place steps := by
  induction steps generalizing place with
  | nil => rfl
  | cons step rest ih =>
    rw [follow_cons, follow_cons, agree.directories, agree.noDirectory_eq, ih]

theorem locate_eq (agree : first.AgreeBut hidden second) (path : String) :
    second.locate path = first.locate path := by
  rw [locate, locate, start, start, agree.workingDirectory, agree.follow_eq]

theorem target_eq (agree : first.AgreeBut hidden second) (path : String) :
    second.target path = first.target path := by
  simp only [target, start, agree.workingDirectory, agree.follow_eq, agree.directories]

theorem isDirectory_finding (agree : first.AgreeBut hidden second) (path : String) :
    (second.finding path).isDirectory = (first.finding path).isDirectory := by
  rw [finding, finding, agree.locate_eq]
  cases first.locate path with
  | error cause => rfl
  | ok place => exact agree.directories place

theorem listing_eq (agree : first.AgreeBut hidden second) (path : String) :
    Files.listing second.finding path = Files.listing first.finding path := by
  rw [Files.listing, Files.listing, finding, finding, agree.locate_eq]
  cases first.locate path with
  | error cause => rfl
  | ok place =>
    simp only [findingAt, agree.directories, agree.noDirectory_eq]
    split
    · exact congrArg Except.ok (inOrder_eq_of_perm (agree.names place))
    · rfl

theorem text_eq (agree : first.AgreeBut hidden second) {path : String}
    (shown : ∀ place, first.locate path = .ok place → ¬hidden place) :
    Files.text second.finding path = Files.text first.finding path := by
  have bytes : (second.finding path).bytes = (first.finding path).bytes := by
    rw [finding, finding, agree.locate_eq]
    cases leads : first.locate path with
    | error cause => rfl
    | ok place => simp only [findingAt, agree.directories, agree.bytes place (shown place leads)]
  rw [Files.text, Files.text, bytes]

end AgreeBut

end FlowAudit.Command.FileTree
