import FlowAudit.Text.Blank
import FlowAudit.Text.Cut
import FlowAudit.Text.Lines
import FlowAudit.Text.Numeral
import Mathlib.Data.List.TakeWhile

set_option autoImplicit false

/-!
Texts that were put together from parts: where a mark, a line feed or a blank does not occur in a
part, taking the text apart gives the part back.
-/
namespace FlowAudit.Text

/-- A cut finds the first mark. -/
theorem cut_append {mark : Char} {before : List Char} (absent : mark ∉ before)
    (after : List Char) : cut [mark] (before ++ mark :: after) = some (before, after) := by
  induction before with
  | nil => simp [cut, List.isPrefixOf]
  | cons char before ih =>
    have different : mark ≠ char := List.ne_of_not_mem_cons absent
    have deeper : mark ∉ before := List.not_mem_of_not_mem_cons absent
    have starts : [mark].isPrefixOf (char :: (before ++ mark :: after)) = false := by
      simp [List.isPrefixOf, different]
    rw [List.cons_append, cut, starts, ih deeper]
    rfl

theorem occurs_iff_isInfix (part text : List Char) : occurs part text = true ↔ part <:+: text := by
  constructor
  · intro found
    obtain ⟨⟨before, after⟩, parts⟩ := Option.isSome_iff_exists.mp found
    exact ⟨before, after, (cut_eq_some parts).symm⟩
  · intro inside
    induction text with
    | nil =>
      obtain rfl := List.infix_nil.mp inside
      rfl
    | cons char rest ih =>
      simp only [occurs, cut]
      split
      · rfl
      · rename_i elsewhere
        rw [List.isPrefixOf_iff_prefix] at elsewhere
        rw [Option.isSome_map]
        exact ih ((List.infix_cons_iff.mp inside).resolve_left elsewhere)

/-- No piece of a text holds the mark that the pieces were cut at. -/
theorem not_mem_of_mem_splitOn {mark : Char} {text piece : List Char}
    (inside : piece ∈ text.splitOn mark) : mark ∉ piece := by
  induction text generalizing piece with
  | nil =>
    rw [List.splitOn_nil, List.mem_singleton] at inside
    exact inside ▸ List.not_mem_nil
  | cons char rest ih =>
    rw [List.splitOn_cons_eq_if_modifyHead] at inside
    split at inside
    · rcases List.mem_cons.mp inside with rfl | later
      · exact List.not_mem_nil
      · exact ih later
    · rename_i other
      obtain ⟨first, others, shape⟩ := List.exists_cons_of_ne_nil (List.splitOn_ne_nil mark rest)
      rw [shape] at ih inside
      rcases List.mem_cons.mp inside with rfl | later
      · have different : mark ≠ char := fun same => other (beq_iff_eq.mpr same.symm)
        exact List.not_mem_cons_of_ne_of_not_mem different (ih List.mem_cons_self)
      · exact ih (List.mem_cons_of_mem first later)

theorem lines_append_lineFeed (before rest : List Char) :
    lines (before ++ '\n' :: rest) = (before.splitOn '\n').map dropReturn ++ lines rest := by
  have pieces : (before ++ '\n' :: rest).splitOn '\n' = before.splitOn '\n' ++ rest.splitOn '\n' :=
    List.splitOn_append_cons_self before rest
  have others : rest.splitOn '\n' ≠ [] := List.splitOn_ne_nil '\n' rest
  have last : (before.splitOn '\n' ++ rest.splitOn '\n').getLast? = (rest.splitOn '\n').getLast? := by
    rw [List.getLast?_append, List.getLast?_eq_some_getLast others, Option.some_or]
  simp only [lines, pieces, last, List.dropLast_append_of_ne_nil others, List.map_append,
    List.append_assoc]

theorem lines_append {row : List Char} (single : '\n' ∉ row) (rest : List Char) :
    lines (row ++ '\n' :: rest) = dropReturn row :: lines rest := by
  rw [lines_append_lineFeed, List.splitOn_eq_singleton single]
  rfl

/-- The text does not break off inside a line. -/
def Ended (text : List Char) : Prop :=
  text = [] ∨ text.getLast? = some '\n'

instance (text : List Char) : Decidable (Ended text) :=
  inferInstanceAs (Decidable (_ ∨ _))

theorem lines_append_of_ended {first : List Char} (ended : Ended first) (second : List Char) :
    lines (first ++ second) = lines first ++ lines second := by
  rcases ended with rfl | last
  · rfl
  · obtain ⟨before, rfl⟩ := List.getLast?_eq_some_iff.mp last
    rw [List.append_assoc, List.singleton_append, lines_append_lineFeed, lines_append_lineFeed,
      lines_nil, List.append_nil]

/-- Rows that end in no carriage return are the lines of the text that they make up. -/
theorem lines_flatMap {rows : List (List Char)} (single : ∀ row ∈ rows, '\n' ∉ row)
    (unreturned : ∀ row ∈ rows, row.getLast? ≠ some '\r') :
    lines (rows.flatMap (· ++ ['\n'])) = rows := by
  induction rows with
  | nil => exact lines_nil
  | cons row rows ih =>
    have kept : dropReturn row = row := if_neg (unreturned row List.mem_cons_self)
    have shape : (row :: rows).flatMap (· ++ ['\n']) =
        row ++ '\n' :: rows.flatMap (· ++ ['\n']) := by
      simp
    rw [shape, lines_append (single row List.mem_cons_self), kept]
    rw [ih (fun row inside => single row (List.mem_cons_of_mem _ inside))
      (fun row inside => unreturned row (List.mem_cons_of_mem _ inside))]

theorem mem_dropWhile {text : List Char} {char : Char} (inside : char ∈ text)
    (visible : isBlank char = false) : char ∈ text.dropWhile isBlank := by
  induction text with
  | nil => cases inside
  | cons first text ih =>
    rw [List.dropWhile_cons]
    split
    · next blank =>
      rcases List.mem_cons.mp inside with rfl | deeper
      · rw [visible] at blank
        cases blank
      · exact ih deeper
    · exact inside

/-- Trimming keeps every character that is not blank. -/
theorem mem_trim {text : List Char} {char : Char} (inside : char ∈ text)
    (visible : isBlank char = false) : char ∈ trim text := by
  have started : char ∈ trimStart text := mem_dropWhile inside visible
  have reversed : char ∈ (trimStart text).reverse := List.mem_reverse.mpr started
  exact List.mem_reverse.mpr (mem_dropWhile reversed visible)

/-- Nothing is left of a text just when all of it is blank. -/
theorem trim_eq_nil_iff (text : List Char) :
    trim text = [] ↔ ∀ char ∈ text, isBlank char = true := by
  constructor
  · intro nothing char inside
    cases visible : isBlank char with
    | true => rfl
    | false =>
      have kept := mem_trim inside visible
      rw [nothing] at kept
      cases kept
  · intro blank
    have started : trimStart text = [] := List.dropWhile_eq_nil_iff.mpr blank
    rw [trim, started]
    rfl

theorem le_toNat_of_isDigit {char : Char} (digit : char.isDigit) : 48 ≤ char.toNat := by
  simp only [Char.isDigit, Bool.and_eq_true, decide_eq_true_eq, ge_iff_le,
    UInt32.le_iff_toNat_le] at digit
  exact digit.1

end FlowAudit.Text
