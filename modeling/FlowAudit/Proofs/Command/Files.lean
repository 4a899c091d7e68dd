import FlowAudit.Command.Files
import Mathlib.Data.List.Sort

set_option autoImplicit false

/-!
Which files hold text, and the order in which directories list them. Reading the text of a file gives the
text whose UTF-8 form the bytes of the file are (`text_eq_ok_iff`), and fails when nothing can be read or
when there is no such text.
-/
namespace FlowAudit.Command

/-- Names in the order of their code points. -/
def inOrder (names : List String) : List String :=
  names.mergeSort fun left right => decide (left ≤ right)

theorem inOrder_perm (names : List String) : (inOrder names).Perm names :=
  List.mergeSort_perm names _

theorem pairwise_inOrder (names : List String) :
    (inOrder names).Pairwise fun left right => left ≤ right :=
  List.pairwise_mergeSort' (fun left right => left ≤ right) names

/-- There is one way to put names in order. -/
theorem eq_inOrder {names sorted : List String} (same : sorted.Perm names)
    (ascending : sorted.Pairwise fun left right => left ≤ right) : sorted = inOrder names :=
  List.Perm.eq_of_pairwise (fun _ _ _ _ => String.le_antisymm) ascending (pairwise_inOrder names)
    (same.trans (inOrder_perm names).symm)

theorem inOrder_filter (names : List String) (kept : String → Bool) :
    inOrder (names.filter kept) = (inOrder names).filter kept :=
  (eq_inOrder ((inOrder_perm names).filter kept) ((pairwise_inOrder names).filter kept)).symm

theorem inOrder_eq_of_perm {names others : List String} (same : names.Perm others) :
    inOrder names = inOrder others :=
  eq_inOrder ((inOrder_perm names).trans same) (pairwise_inOrder names)

namespace Files

/-- The bytes at the path are those of the text in UTF-8. -/
def HasText (files : Files) (path : String) (text : List Char) : Prop :=
  (files path).bytes = .ok (String.ofList text).toUTF8

/-- What can be read is no directory. -/
def Apart (files : Files) : Prop :=
  ∀ path bytes, (files path).bytes = .ok bytes → (files path).isDirectory = false

/-- Nothing can be read at the path, or what can be read is the UTF-8 form of no text. -/
inductive HasNoText (files : Files) (path : String) : FileError → Prop where
  | unreadable {cause : FileError} (failure : (files path).bytes = .error cause) :
      HasNoText files path cause
  | notUnicode {bytes : ByteArray} (read : (files path).bytes = .ok bytes)
      (other : ∀ text : String, text.toUTF8 ≠ bytes) : HasNoText files path .notUnicode

theorem fromUTF8?_eq_some_iff (bytes : ByteArray) (text : String) :
    String.fromUTF8? bytes = some text ↔ text.toUTF8 = bytes := by
  unfold String.fromUTF8?
  split
  · rename_i valid
    rw [Option.some.injEq]
    constructor
    · rintro rfl
      rfl
    · rintro rfl
      rfl
  · rename_i invalid
    simp only [reduceCtorEq, false_iff]
    rintro rfl
    exact invalid text.isValidUTF8

theorem text_eq_ok_iff (files : Files) (path : String) (text : List Char) :
    files.text path = .ok text ↔ files.HasText path text := by
  constructor
  · intro success
    unfold Files.text at success
    split at success
    · cases success
    · rename_i bytes read
      split at success
      · rename_i found decoded
        obtain rfl := Except.ok.inj success
        rw [HasText, read, String.ofList_toList, (fromUTF8?_eq_some_iff bytes found).mp decoded]
      · cases success
  · intro holds
    have decoded := (fromUTF8?_eq_some_iff _ (String.ofList text)).mpr rfl
    rw [Files.text, holds]
    simp only [decoded, String.toList_ofList]

theorem HasText.unique {files : Files} {path : String} {first second : List Char}
    (one : files.HasText path first) (other : files.HasText path second) : first = second := by
  rw [← text_eq_ok_iff] at one other
  exact Except.ok.inj (one.symm.trans other)

theorem text_eq_error_iff (files : Files) (path : String) (cause : FileError) :
    files.text path = .error cause ↔ files.HasNoText path cause := by
  constructor
  · intro failure
    unfold Files.text at failure
    split at failure
    · rename_i found unread
      obtain rfl := Except.error.inj failure
      exact .unreadable unread
    · rename_i bytes read
      split at failure
      · cases failure
      · rename_i undecoded
        obtain rfl := Except.error.inj failure
        refine .notUnicode read ?_
        intro text same
        rw [(fromUTF8?_eq_some_iff bytes text).mpr same] at undecoded
        cases undecoded
  · intro none
    unfold Files.text
    cases none with
    | unreadable failure => rw [failure]
    | notUnicode read other =>
      rename_i bytes
      rw [read]
      cases decoded : String.fromUTF8? bytes with
      | none => simp [decoded]
      | some text => exact absurd ((fromUTF8?_eq_some_iff bytes text).mp decoded) (other text)

end Files

end FlowAudit.Command
