import FlowAudit.Command.FileTree
import FlowAudit.Proofs.Attempts
import FlowAudit.Proofs.Command.Files
import FlowAudit.Proofs.Text

set_option autoImplicit false

/-!
Places in trees of files. A path leads to a place by way of directories, each of which is there; the path of
a child leads to the place of its name in the directory (`locate_child`).
-/
namespace FlowAudit.Command.FileTree

open FlowAudit.Text

/-- A step that leads to a file inside a directory. -/
structure IsFileName (name : String) : Prop where
  ne_empty : name ≠ ""
  ne_dot : name ≠ "."
  ne_dots : name ≠ ".."
  single : '/' ∉ name.toList

theorem isDirectory_iff (tree : FileTree) (place : List String) :
    tree.isDirectory place = true ↔ place = [] ∨ (∃ listed ∈ tree.directories, place <+: listed) ∨
      ∃ file ∈ tree.files, place <+: file.1 ∧ place.length < file.1.length := by
  simp only [isDirectory, Bool.or_eq_true, List.any_eq_true, List.isPrefixOf_iff_prefix,
    Bool.and_eq_true, decide_eq_true_eq, List.isEmpty_iff, or_assoc]

theorem isDirectory_of_prefix {tree : FileTree} {place inside : List String}
    (directory : tree.isDirectory inside = true) (above : place <+: inside) :
    tree.isDirectory place = true := by
  rw [isDirectory_iff] at directory ⊢
  rcases directory with rfl | ⟨listed, known, deeper⟩ | ⟨file, known, deeper, longer⟩
  · exact Or.inl (List.prefix_nil.mp above)
  · exact Or.inr (Or.inl ⟨listed, known, above.trans deeper⟩)
  · have shorter := Nat.lt_of_le_of_lt above.length_le longer
    exact Or.inr (Or.inr ⟨file, known, above.trans deeper, shorter⟩)

/-! Paths -/

theorem follow_cons (tree : FileTree) (place : List String) (step : String) (rest : List String) :
    tree.follow place (step :: rest) =
      if tree.isDirectory place then tree.follow (move place step) rest
      else .error (tree.noDirectory place) := rfl

theorem follow_append (tree : FileTree) (place : List String) (first second : List String) :
    tree.follow place (first ++ second) = tree.follow place first >>= (tree.follow · second) := by
  induction first generalizing place with
  | nil => rfl
  | cons step rest ih =>
    rw [List.cons_append, follow_cons, follow_cons, ih]
    split <;> rfl

theorem follow_append_eq_ok_iff (tree : FileTree) (place target : List String) (first : List String)
    (last : String) :
    tree.follow place (first ++ [last]) = .ok target ↔
      ∃ directory, tree.follow place first = .ok directory ∧ tree.isDirectory directory = true ∧
        move directory last = target := by
  rw [follow_append, bind_eq_ok_iff]
  apply exists_congr
  intro directory
  apply and_congr_right
  intro _
  rw [follow_cons]
  split
  · rename_i known
    simp [follow, known]
  · rename_i other
    simp [other]

theorem IsFileName.move_eq {name : String} (proper : IsFileName name) (place : List String) :
    move place name = place ++ [name] := by
  rw [move, if_neg (not_or.mpr ⟨proper.ne_empty, proper.ne_dot⟩), if_neg proper.ne_dots]

theorem steps_append_slash {name : String} (single : '/' ∉ name.toList) (path : String) :
    steps (path ++ "/" ++ name) = steps path ++ [name] := by
  have whole : (path ++ "/" ++ name).toList = path.toList ++ '/' :: name.toList := by
    simp [String.toList_append]
  simp only [steps, whole, List.splitOn_append_cons_self, List.splitOn_eq_singleton single,
    List.map_append, List.map_cons, List.map_nil, String.ofList_toList]

theorem start_append {path : String} (some : path ≠ "") (tree : FileTree) (more : String) :
    tree.start (path ++ more) = tree.start path := by
  have nonempty : path.toList ≠ [] := fun none => some (String.toList_eq_nil_iff.mp none)
  rw [start, start, String.toList_append, List.head?_append_of_ne_nil path.toList nonempty]

theorem child_eq (path name : String) :
    (∃ before, path = before ++ "/" ∧ child path name = before ++ "/" ++ name) ∨
      child path name = path ++ "/" ++ name := by
  unfold child
  split
  · rename_i slash
    obtain ⟨before, ends⟩ := List.getLast?_eq_some_iff.mp slash
    have whole : path = String.ofList before ++ "/" := by
      rw [← String.toList_inj, ends, String.toList_append, String.toList_ofList]
      rfl
    exact Or.inl ⟨_, whole, congrArg (· ++ name) whole⟩
  · exact Or.inr rfl

/-- The path of a child leads into the directory to which the path of its parent leads. -/
theorem locate_child {tree : FileTree} {path name : String} {place : List String} (some : path ≠ "")
    (proper : IsFileName name) (leads : tree.locate path = .ok place)
    (inside : tree.isDirectory place = true) :
    tree.locate (child path name) = .ok (place ++ [name]) := by
  rcases child_eq path name with ⟨before, rfl, whole⟩ | whole
  · have ends := steps_append_slash (by decide : '/' ∉ "".toList) before
    rw [String.append_empty] at ends
    rw [locate, ends, follow_append_eq_ok_iff] at leads
    obtain ⟨directory, reached, _, same⟩ := leads
    obtain rfl : directory = place := same
    rw [locate, whole, start_append some, steps_append_slash proper.single, follow_append_eq_ok_iff]
    exact ⟨directory, reached, inside, proper.move_eq directory⟩
  · rw [locate, whole, String.append_assoc, start_append some, ← String.append_assoc,
      steps_append_slash proper.single, follow_append_eq_ok_iff]
    exact ⟨place, leads, inside, proper.move_eq place⟩

theorem single_of_mem_steps {path name : String} (inside : name ∈ steps path) : '/' ∉ name.toList := by
  obtain ⟨piece, listed, rfl⟩ := List.mem_map.mp inside
  rw [String.toList_ofList]
  exact not_mem_of_mem_splitOn listed

/-- The path of a file that is written leads to a new place, or to that of a file, in a directory. -/
structure IsTarget (tree : FileTree) (path : String) (directory : List String) (name : String) : Prop where
  proper : IsFileName name
  leads : tree.locate path = .ok (directory ++ [name])
  inside : tree.isDirectory directory = true
  free : tree.isDirectory (directory ++ [name]) = false

theorem exists_isTarget {tree : FileTree} {path : String} {place : List String}
    (found : tree.target path = .ok place) :
    ∃ directory name, place = directory ++ [name] ∧ tree.IsTarget path directory name := by
  unfold target at found
  dsimp only at found
  split at found
  · cases found
  · rename_i name before shape
    split at found
    · cases found
    · rename_i directory followed
      split at found
      · cases found
      · rename_i usable
        simp only [Bool.or_eq_true, not_or, Bool.not_eq_true, Bool.not_eq_false', List.isEmpty_iff,
          decide_eq_false_iff_not] at usable
        obtain ⟨⟨⟨untrailed, notDot⟩, notDots⟩, free⟩ := usable
        have backwards : (steps path).reverse = name :: before := by
          rw [← List.takeWhile_append_dropWhile (l := (steps path).reverse), untrailed, shape]
          rfl
        have whole : steps path = before.reverse ++ [name] := by
          rw [← List.reverse_reverse (steps path), backwards, List.reverse_cons]
        have named : name ≠ "" := by
          rintro rfl
          rw [backwards, List.takeWhile_cons_of_pos (by decide)] at untrailed
          cases untrailed
        have listed : name ∈ steps path := by simp [whole]
        have proper : IsFileName name := ⟨named, notDot, notDots, single_of_mem_steps listed⟩
        obtain ⟨around, reached, inside, same⟩ := (follow_append_eq_ok_iff tree _ _ _ _).mp followed
        obtain rfl : around = directory := same
        refine ⟨around, name, (Except.ok.inj found).symm, proper, ?_, inside, free⟩
        rw [locate, whole, follow_append_eq_ok_iff]
        exact ⟨around, reached, inside, proper.move_eq around⟩

/-! What is found -/

theorem bytes_finding_eq_ok_iff (tree : FileTree) (path : String) (bytes : ByteArray) :
    (tree.finding path).bytes = .ok bytes ↔
      ∃ place, tree.locate path = .ok place ∧ tree.bytes? place = some bytes := by
  unfold finding
  cases tree.locate path with
  | error cause => simp
  | ok place =>
    simp only [findingAt, Except.ok.injEq, exists_eq_left']
    cases tree.bytes? place <;> simp

theorem isDirectory_finding_iff (tree : FileTree) (path : String) :
    (tree.finding path).isDirectory = true ↔
      ∃ place, tree.locate path = .ok place ∧ tree.isDirectory place = true := by
  unfold finding
  cases tree.locate path <;> simp [findingAt]

theorem names_finding_eq_ok_iff (tree : FileTree) (path : String) (names : List String) :
    (tree.finding path).names = .ok names ↔
      ∃ place, tree.locate path = .ok place ∧ tree.isDirectory place = true ∧
        tree.names place = names := by
  unfold finding
  cases tree.locate path with
  | error cause => simp
  | ok place =>
    simp only [findingAt, Except.ok.injEq, exists_eq_left']
    split <;> simp_all

/-- Where no file of a tree is a directory, what can be read is none. -/
theorem apart_finding {tree : FileTree} (leaves : ∀ file ∈ tree.files, tree.isDirectory file.1 = false) :
    Files.Apart tree.finding := by
  intro path bytes read
  obtain ⟨place, leads, known⟩ := (tree.bytes_finding_eq_ok_iff path bytes).mp read
  obtain ⟨before, after, split, _⟩ := List.lookup_eq_some_iff.mp known
  have leaf := leaves (place, bytes) (split ▸ List.mem_append_right _ List.mem_cons_self)
  rw [finding, leads]
  exact leaf

theorem names_eq (tree : FileTree) (place : List String) :
    tree.names place = tree.files.filterMap fun file =>
      file.1.getLast?.bind fun name => if file.1.dropLast = place then some name else none := by
  unfold names
  apply List.filterMap_congr
  intro file _
  cases file.1.getLast? <;> rfl

theorem bytes?_ne_none_of_mem_names {tree : FileTree} {place : List String} {name : String}
    (inside : name ∈ tree.names place) : tree.bytes? (place ++ [name]) ≠ none := by
  rw [names_eq, List.mem_filterMap] at inside
  obtain ⟨file, known, named⟩ := inside
  obtain ⟨last, ends, here⟩ := Option.bind_eq_some_iff.mp named
  split at here
  · rename_i around
    obtain rfl := Option.some.inj here
    have whole := List.dropLast_append_getLast? last ends
    rw [around] at whole
    intro absent
    have other := List.lookup_eq_none_iff.mp absent file known
    exact bne_iff_ne.mp other whole
  · cases here

end FlowAudit.Command.FileTree
