import FlowAudit.Profile.Basic
import FlowAudit.Proofs.Text
import Mathlib.Data.List.Dedup
import Mathlib.Data.List.Induction

set_option autoImplicit false

/-!
Labels of result files. A name has the label of the first rule whose pattern it holds
(`label?_eq_some_iff`), and the labels of a profile are listed as they first come among its rules
(`listsFirsts_labels`).
-/
namespace FlowAudit

open FlowAudit.Text FlowAudit.Profile

/-- Each item is listed once, in the order of their first places. -/
structure ListsFirsts (items listed : List String) : Prop where
  members : ∀ item, item ∈ listed ↔ item ∈ items
  order : listed.Pairwise fun first second => items.idxOf first < items.idxOf second

theorem ListsFirsts.nodup {items listed : List String} (lists : ListsFirsts items listed) :
    listed.Nodup := by
  apply lists.order.imp
  rintro first second before rfl
  exact Nat.lt_irrefl _ before

/-- What is listed before an item came before it. -/
theorem ListsFirsts.exists_split {items listed : List String} (lists : ListsFirsts items listed)
    {earlier later : List String} {item : String} (split : items = earlier ++ item :: later)
    (new : item ∉ earlier) :
    ∃ before after, listed = before ++ item :: after ∧ ∀ other ∈ before, other ∈ earlier := by
  have inside : item ∈ listed := by
    rw [lists.members, split]
    exact List.mem_append_right _ List.mem_cons_self
  obtain ⟨before, after, rfl⟩ := List.append_of_mem inside
  refine ⟨before, after, rfl, ?_⟩
  intro other listed
  have sooner : items.idxOf other < items.idxOf item :=
    (List.pairwise_append.mp lists.order).2.2 other listed item List.mem_cons_self
  by_contra absent
  rw [split, List.idxOf_append_of_notMem new, List.idxOf_append_of_notMem absent,
    List.idxOf_cons_self] at sooner
  omega

theorem idxOf_append_lt (items more : List String) {first second : String}
    (left : first ∈ items.eraseDups) (right : second ∈ items.eraseDups)
    (before : items.idxOf first < items.idxOf second) :
    (items ++ more).idxOf first < (items ++ more).idxOf second := by
  rwa [List.idxOf_append_of_mem (List.mem_eraseDups.mp left),
    List.idxOf_append_of_mem (List.mem_eraseDups.mp right)]

theorem listsFirsts_eraseDups (items : List String) : ListsFirsts items items.eraseDups where
  members item := List.mem_eraseDups
  order := by
    induction items using List.reverseRecOn with
    | nil => exact .nil
    | append_singleton items last ih =>
      rw [List.eraseDups_append]
      by_cases known : last ∈ items
      · have nothing : [last].removeAll items = [] := by simp [List.removeAll, known]
        rw [nothing, List.eraseDups_nil, List.append_nil]
        exact ih.imp_of_mem (idxOf_append_lt items [last])
      · have added : [last].removeAll items = [last] := by simp [List.removeAll, known]
        rw [added, List.eraseDups_cons, List.filter_nil, List.eraseDups_nil, List.pairwise_append]
        refine ⟨ih.imp_of_mem (idxOf_append_lt items [last]), List.pairwise_singleton _ _, ?_⟩
        intro first inside second new
        obtain rfl := List.mem_singleton.mp new
        have early := List.mem_eraseDups.mp inside
        rw [List.idxOf_append_of_mem early, List.idxOf_append_of_notMem known]
        exact Nat.lt_add_right _ (List.idxOf_lt_length_of_mem early)

namespace Profile

/-- The name holds the mark of result files, and the first rule whose pattern it holds has the label. -/
structure HasLabel (profile : Profile) (name label : String) : Prop where
  mark : (profile.fileMark.getD defaultFileMark).toList <:+: name.toList
  first : ∃ earlier rule later, profile.groups = earlier ++ rule :: later ∧
    (∀ other ∈ earlier, ¬other.pattern.toList <:+: name.toList) ∧
    rule.pattern.toList <:+: name.toList ∧ rule.label = label

theorem label?_eq_some_iff (profile : Profile) (name label : String) :
    profile.label? name.toList = some label ↔ profile.HasLabel name label := by
  have marked : profile.takesFile name.toList = true ↔
      (profile.fileMark.getD defaultFileMark).toList <:+: name.toList := occurs_iff_isInfix _ _
  simp only [label?, Option.ite_none_right_eq_some, marked, Option.map_eq_some_iff,
    List.find?_eq_some_iff_append, occurs_iff_isInfix, Bool.not_eq_true', ← Bool.not_eq_true]
  constructor
  · rintro ⟨mark, rule, ⟨holds, earlier, later, split, passed⟩, same⟩
    exact ⟨mark, earlier, rule, later, split, passed, holds, same⟩
  · rintro ⟨mark, earlier, rule, later, split, passed, holds, same⟩
    exact ⟨mark, rule, ⟨holds, earlier, later, split, passed⟩, same⟩

theorem listsFirsts_labels (profile : Profile) :
    ListsFirsts (profile.groups.map GroupRule.label) profile.labels :=
  listsFirsts_eraseDups _

theorem HasLabel.mem_labels {profile : Profile} {name label : String}
    (has : profile.HasLabel name label) : label ∈ profile.labels := by
  obtain ⟨earlier, rule, later, split, _, _, rfl⟩ := has.first
  rw [(listsFirsts_labels profile).members, split]
  exact List.mem_map_of_mem (List.mem_append_right _ List.mem_cons_self)

end Profile

end FlowAudit
