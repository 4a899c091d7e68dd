set_option autoImplicit false

/-!
Cutting a text at the first occurrence of a mark. `cut_eq_some` says that nothing but the mark is
lost, `cut_nil_mark` that the empty mark occurs at once.
-/
namespace FlowAudit.Text

/-- The text before and after the first occurrence of `mark`. -/
def cut (mark : List Char) : List Char → Option (List Char × List Char)
  | [] => if mark = [] then some ([], []) else none
  | char :: rest =>
      if mark.isPrefixOf (char :: rest) then some ([], (char :: rest).drop mark.length)
      else (cut mark rest).map fun (before, after) => (char :: before, after)

/-- Whether `part` occurs in `text` as a run of neighbouring characters. -/
def occurs (part text : List Char) : Bool :=
  (cut part text).isSome

theorem cut_nil_mark (text : List Char) : cut [] text = some ([], text) := by
  cases text <;> simp [cut, List.isPrefixOf]

theorem cut_eq_some {mark text before after : List Char}
    (found : cut mark text = some (before, after)) : text = before ++ mark ++ after := by
  induction text generalizing before with
  | nil =>
    simp only [cut] at found
    split at found <;> simp_all
  | cons char rest ih =>
    simp only [cut] at found
    split at found
    · rename_i starts
      obtain ⟨tail, whole⟩ := List.isPrefixOf_iff_prefix.mp starts
      simp only [Option.some.injEq, Prod.mk.injEq] at found
      obtain ⟨rfl, rfl⟩ := found
      rw [← whole, List.drop_left]
      rfl
    · obtain ⟨⟨left, right⟩, inner, equal⟩ := Option.map_eq_some_iff.mp found
      simp only [Prod.mk.injEq] at equal
      obtain ⟨rfl, rfl⟩ := equal
      rw [ih inner]
      simp

end FlowAudit.Text
