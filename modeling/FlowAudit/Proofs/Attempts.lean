import Mathlib.Data.List.Forall2

set_option autoImplicit false

/-!
Steps that may fail. What follows a step is reached when the step succeeds; a row of steps gives a
result for each of them, or fails as the first one does that fails.
-/
namespace FlowAudit

variable {ε ε' α β : Type}

theorem bind_eq_ok_iff {first : Except ε α} {next : α → Except ε β} {result : β} :
    (first >>= next) = .ok result ↔ ∃ value, first = .ok value ∧ next value = .ok result := by
  cases first <;> simp [bind, Except.bind]

theorem bind_eq_error_iff {first : Except ε α} {next : α → Except ε β} {cause : ε} :
    (first >>= next) = .error cause ↔
      first = .error cause ∨ ∃ value, first = .ok value ∧ next value = .error cause := by
  cases first <;> simp [bind, Except.bind]

theorem mapError_eq_ok_iff {attempt : Except ε α} {name : ε → ε'} {result : α} :
    attempt.mapError name = .ok result ↔ attempt = .ok result := by
  cases attempt <;> simp [Except.mapError]

theorem mapError_eq_error_iff {attempt : Except ε α} {name : ε → ε'} {cause : ε'} :
    attempt.mapError name = .error cause ↔ ∃ inner, attempt = .error inner ∧ name inner = cause := by
  cases attempt <;> simp [Except.mapError]

theorem map_eq_ok_iff {attempt : Except ε α} {change : α → β} {result : β} :
    attempt.map change = .ok result ↔ ∃ value, attempt = .ok value ∧ change value = result := by
  cases attempt <;> simp [Except.map]

theorem map_eq_error_iff {attempt : Except ε α} {change : α → β} {cause : ε} :
    attempt.map change = .error cause ↔ attempt = .error cause := by
  cases attempt <;> simp [Except.map]

theorem exists_eq_ok_iff {attempt : Except ε α} :
    (∃ result, attempt = .ok result) ↔ ∀ cause, attempt ≠ .error cause := by
  cases attempt <;> simp

/-- Two steps that succeed alike give the same to one who does not ask why a step fails. -/
theorem toOption_congr {attempt other : Except ε α}
    (same : ∀ result, attempt = .ok result ↔ other = .ok result) : attempt.toOption = other.toOption := by
  cases attempt with
  | ok result => rw [(same result).mp rfl]
  | error cause =>
    cases other with
    | ok result => cases (same result).mpr rfl
    | error cause' => rfl

/-- Rows of steps that go alike, one by one, give the same. -/
theorem mapM_congr_of_forall₂ {γ : Type} {attempt : α → Except ε γ} {attempt' : β → Except ε γ}
    {items : List α} {items' : List β}
    (same : List.Forall₂ (fun item item' => attempt item = attempt' item') items items') :
    items.mapM attempt = items'.mapM attempt' := by
  induction same with
  | nil => rfl
  | cons here later ih => rw [List.mapM_cons, List.mapM_cons, here, ih]

theorem mapM_congr {attempt attempt' : α → Except ε β} {items : List α}
    (same : ∀ item ∈ items, attempt item = attempt' item) :
    items.mapM attempt = items.mapM attempt' :=
  mapM_congr_of_forall₂ (List.forall₂_same.mpr same)

theorem mapM_eq_ok_iff {attempt : α → Except ε β} {items : List α} {results : List β} :
    items.mapM attempt = .ok results ↔
      List.Forall₂ (fun item result => attempt item = .ok result) items results := by
  induction items generalizing results with
  | nil => simp [pure, Except.pure, eq_comm]
  | cons item rest ih =>
    simp only [List.mapM_cons, bind_eq_ok_iff, ih, pure, Except.pure, Except.ok.injEq]
    rw [List.forall₂_cons_left_iff]
    constructor
    · rintro ⟨result, here, later, others, rfl⟩
      exact ⟨result, later, here, others, rfl⟩
    · rintro ⟨result, later, here, others, rfl⟩
      exact ⟨result, here, later, others, rfl⟩

/-- Every step succeeds with the value that is foreseen for it. -/
theorem mapM_eq_ok_map {attempt : α → Except ε β} {items : List α} {value : α → β}
    (succeeds : ∀ item ∈ items, attempt item = .ok (value item)) :
    items.mapM attempt = .ok (items.map value) :=
  mapM_eq_ok_iff.mpr (List.forall₂_map_right_iff.mpr (List.forall₂_same.mpr succeeds))

theorem mapM_eq_some_iff {attempt : α → Option β} {items : List α} {results : List β} :
    items.mapM attempt = some results ↔
      List.Forall₂ (fun item result => attempt item = some result) items results := by
  induction items generalizing results with
  | nil => simp [eq_comm]
  | cons item rest ih =>
    simp only [List.mapM_cons, Option.bind_eq_bind, Option.bind_eq_some_iff, ih, Option.pure_def,
      Option.some.injEq]
    rw [List.forall₂_cons_left_iff]
    constructor
    · rintro ⟨result, here, others, later, rfl⟩
      exact ⟨result, others, here, later, rfl⟩
    · rintro ⟨result, others, here, later, rfl⟩
      exact ⟨result, here, others, later, rfl⟩

theorem mapM_eq_none_iff {attempt : α → Option β} {items : List α} :
    items.mapM attempt = none ↔ ∃ item ∈ items, attempt item = none := by
  induction items with
  | nil => simp
  | cons item rest ih =>
    rw [List.mapM_cons, List.exists_mem_cons_iff, ← ih]
    cases attempt item <;> cases rest.mapM attempt <;> simp

theorem exists_of_forall₂ {related : α → β → Prop} {items : List α} {results : List β}
    (pairs : List.Forall₂ related items results) {item : α} (inside : item ∈ items) :
    ∃ result ∈ results, related item result := by
  induction pairs with
  | nil => cases inside
  | cons here _ ih =>
    rcases List.mem_cons.mp inside with rfl | inside
    · exact ⟨_, List.mem_cons_self, here⟩
    · obtain ⟨result, listed, holds⟩ := ih inside
      exact ⟨result, List.mem_cons_of_mem _ listed, holds⟩

theorem forall₂_imp_of_mem {related related' : α → β → Prop} {items : List α} {results : List β}
    (carries : ∀ item ∈ items, ∀ result, related item result → related' item result)
    (pairs : List.Forall₂ related items results) : List.Forall₂ related' items results := by
  refine ((List.forall₂_and_left _ _).mpr ⟨carries, pairs⟩).imp ?_
  rintro item result ⟨carries, holds⟩
  exact carries result holds

theorem forall₂_congr_of_mem {related related' : α → β → Prop} {items : List α} {results : List β}
    (same : ∀ item ∈ items, ∀ result, related item result ↔ related' item result) :
    List.Forall₂ related items results ↔ List.Forall₂ related' items results :=
  ⟨forall₂_imp_of_mem fun item inside result => (same item inside result).mp,
    forall₂_imp_of_mem fun item inside result => (same item inside result).mpr⟩

theorem exists_of_mapM_eq_ok {attempt : α → Except ε β} {items : List α} {results : List β}
    (success : items.mapM attempt = .ok results) {item : α} (inside : item ∈ items) :
    ∃ result ∈ results, attempt item = .ok result :=
  exists_of_forall₂ (mapM_eq_ok_iff.mp success) inside

/-- A row is cut at its first item, or further on with that item among the earlier ones. -/
theorem exists_split_cons_iff (item : α) (rest : List α) (earlier : α → Prop)
    (here : Nat → α → Prop) :
    (∃ before found after, item :: rest = before ++ found :: after ∧
        (∀ other ∈ before, earlier other) ∧ here before.length found) ↔
      here 0 item ∨ earlier item ∧ ∃ before found after, rest = before ++ found :: after ∧
        (∀ other ∈ before, earlier other) ∧ here (before.length + 1) found := by
  constructor
  · rintro ⟨before, found, after, split, passed, holds⟩
    cases before with
    | nil =>
      obtain ⟨rfl, _⟩ := List.cons.inj split
      exact Or.inl holds
    | cons head tail =>
      obtain ⟨rfl, tails⟩ := List.cons.inj split
      have parts := List.forall_mem_cons.mp passed
      exact Or.inr ⟨parts.1, tail, found, after, tails, parts.2, holds⟩
  · rintro (holds | ⟨first, before, found, after, rfl, passed, holds⟩)
    · exact ⟨[], item, rest, rfl, by simp, holds⟩
    · exact ⟨item :: before, found, after, rfl, List.forall_mem_cons.mpr ⟨first, passed⟩, holds⟩

theorem mapM_eq_error_iff {attempt : α → Except ε β} {items : List α} {cause : ε} :
    items.mapM attempt = .error cause ↔
      ∃ before item after, items = before ++ item :: after ∧
        (∀ earlier ∈ before, ∃ result, attempt earlier = .ok result) ∧
        attempt item = .error cause := by
  induction items with
  | nil => simp [pure, Except.pure]
  | cons item rest ih =>
    have split := exists_split_cons_iff item rest (fun item => ∃ result, attempt item = .ok result)
      fun _ item => attempt item = .error cause
    rw [split, ← ih, List.mapM_cons, bind_eq_error_iff]
    apply or_congr_right
    rw [← exists_and_right]
    apply exists_congr
    intro result
    apply and_congr_right
    intro _
    -- The results after this one are only put together.
    rw [bind_eq_error_iff]
    simp [pure, Except.pure]

end FlowAudit
