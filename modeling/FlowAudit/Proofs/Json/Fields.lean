import FlowAudit.Proofs.Attempts
import FlowAudit.Proofs.Json.Printer

set_option autoImplicit false

/-!
Fields of objects. The keys of an object may be spelled in any way and stand in any order; a field has the
values of those keys that mean its name. Reading the fields of an object succeeds when each has at most one
value and all keys mean something (`fields?_eq_some_iff`).
-/
namespace FlowAudit.Json

open FlowAudit.Text

/-! Values of a field -/

/-- Every key of the members means something, and these are the values under those that mean the name. -/
inductive HasValues (name : List Char) : List (List Char × Value) → List Value → Prop
  | nil : HasValues name [] []
  | here {key : List Char} {value : Value} {members : List (List Char × Value)} {values : List Value}
      (named : Quoted.Means key name) (others : HasValues name members values) :
      HasValues name ((key, value) :: members) (value :: values)
  | other {key text : List Char} {value : Value} {members : List (List Char × Value)}
      {values : List Value} (named : Quoted.Means key text) (different : text ≠ name)
      (others : HasValues name members values) : HasValues name ((key, value) :: members) values

/-- The members with their keys as they are meant. -/
def named? (members : List (List Char × Value)) : Option (List (List Char × Value)) :=
  members.mapM fun (key, value) => (Quoted.meaning? key).map (·, value)

section Members

variable {members named : List (List Char × Value)} {name : List Char} {values : List Value}

theorem named?_cons_eq_some_iff {key : List Char} {value : Value} :
    named? ((key, value) :: members) = some named ↔
      ∃ text others, Quoted.meaning? key = some text ∧ named? members = some others ∧
        named = (text, value) :: others := by
  simp only [named?, List.mapM_cons, Option.bind_eq_bind, Option.bind_eq_some_iff,
    Option.map_eq_some_iff, Option.pure_def, Option.some.injEq]
  constructor
  · rintro ⟨_, ⟨text, meaning, rfl⟩, others, read, rfl⟩
    exact ⟨text, others, meaning, read, rfl⟩
  · rintro ⟨text, others, meaning, read, rfl⟩
    exact ⟨_, ⟨text, meaning, rfl⟩, others, read, rfl⟩

theorem HasValues.exists_named? (known : HasValues name members values) :
    ∃ named, named? members = some named := by
  induction known with
  | nil => exact ⟨[], rfl⟩
  | here means _ ih =>
    obtain ⟨others, read⟩ := ih
    exact ⟨_, named?_cons_eq_some_iff.mpr
      ⟨_, others, (Quoted.meaning?_eq_some_iff means.isSpelling _).mpr means, read, rfl⟩⟩
  | other means _ _ ih =>
    obtain ⟨others, read⟩ := ih
    exact ⟨_, named?_cons_eq_some_iff.mpr
      ⟨_, others, (Quoted.meaning?_eq_some_iff means.isSpelling _).mpr means, read, rfl⟩⟩

theorem hasValues_iff (keys : ∀ member ∈ members, Quoted.IsSpelling member.1)
    (read : named? members = some named) :
    HasValues name members values ↔ (named.filter (·.1 = name)).map Prod.snd = values := by
  induction members generalizing named values with
  | nil =>
    obtain rfl := Option.some.inj read
    constructor
    · intro known
      cases known
      rfl
    · rintro rfl
      exact HasValues.nil
  | cons member others ih =>
    obtain ⟨key, value⟩ := member
    obtain ⟨spelled, keys⟩ := List.forall_mem_cons.mp keys
    obtain ⟨text, later, meaning, rest, rfl⟩ := named?_cons_eq_some_iff.mp read
    have means := (Quoted.meaning?_eq_some_iff spelled text).mp meaning
    have only : ∀ text', Quoted.Means key text' → text = text' := by
      intro text' means'
      have meaning' := (Quoted.meaning?_eq_some_iff spelled text').mpr means'
      exact Option.some.inj (meaning.symm.trans meaning')
    by_cases same : text = name
    · subst same
      rw [List.filter_cons_of_pos (by simp), List.map_cons]
      constructor
      · intro known
        cases known with
        | here _ known => rw [(ih keys rest).mp known]
        | other means' different _ => exact absurd (only _ means').symm different
      · rintro rfl
        exact HasValues.here means ((ih keys rest).mpr rfl)
    · rw [List.filter_cons_of_neg (by simpa using same)]
      constructor
      · intro known
        cases known with
        | here means' _ => exact absurd (only _ means') same
        | other _ _ known => exact (ih keys rest).mp known
      · rintro rfl
        exact HasValues.other means same ((ih keys rest).mpr rfl)

theorem HasValues.exists_mem (known : HasValues name members values) {value : Value}
    (inside : value ∈ values) : ∃ key, (key, value) ∈ members := by
  induction known with
  | nil => cases inside
  | here _ _ ih =>
    rcases List.mem_cons.mp inside with rfl | inside
    · exact ⟨_, List.mem_cons_self⟩
    · obtain ⟨key, listed⟩ := ih inside
      exact ⟨key, List.mem_cons_of_mem _ listed⟩
  | other _ _ _ ih =>
    obtain ⟨key, listed⟩ := ih inside
    exact ⟨key, List.mem_cons_of_mem _ listed⟩

end Members

namespace Value

variable {value held : Value} {name : String}

theorem object_ne_array (members : List (List Char × Value)) (items : List Value) :
    Value.object members ≠ .array items := by
  intro same
  cases same

/-- An object in which one key means the name, and stands before the value that is held. -/
def HasField (value : Value) (name : String) (held : Value) : Prop :=
  ∃ members, value = .object members ∧ HasValues name.toList members [held]

/-- An object in which no key means the name. -/
def LacksField (value : Value) (name : String) : Prop :=
  ∃ members, value = .object members ∧ HasValues name.toList members []

/-- An object whose keys are spelled as texts are has the fields that it was given. -/
theorem hasValues_members (name : String) (fields : List (String × Value)) :
    HasValues name.toList (fields.map fun field => member field.1 field.2)
      ((fields.filter (·.1 = name)).map Prod.snd) := by
  induction fields with
  | nil => exact .nil
  | cons field rest ih =>
    have named := Quoted.means_spell field.1.toList
    by_cases same : field.1 = name
    · rw [List.filter_cons_of_pos (by simpa using same)]
      exact .here (same ▸ named) ih
    · rw [List.filter_cons_of_neg (by simpa using same)]
      exact .other named (fun texts => same (String.toList_inj.mp texts)) ih

theorem hasField_of_members (fields : List (String × Value))
    (once : (fields.filter (·.1 = name)).map Prod.snd = [held]) :
    (Value.object (fields.map fun field => member field.1 field.2)).HasField name held :=
  ⟨_, rfl, once ▸ hasValues_members name fields⟩

/-- A field is read when the members hold at most one value for it. -/
theorem field_eq_some_iff (found : List (List Char × Value)) (field : Option Value) :
    (match found with
      | [] => some none
      | [(_, value)] => some (some value)
      | _ => none) = some field ↔ found.map Prod.snd = field.toList := by
  split
  · cases field <;> simp
  · cases field <;> simp
  · next more one =>
    cases found with
    | nil => exact absurd rfl more
    | cons first rest =>
      cases rest with
      | nil => exact absurd rfl (one _ _)
      | cons second rest => cases field <;> simp

/-- The fields of values that are not written as lists. -/
theorem fields?_eq_some_iff {names : List String} {fields : List (Option Value)}
    (well : WellSpelled value) (noList : ∀ items, value ≠ .array items) (full : names ≠ []) :
    value.fields? names = some fields ↔ ∃ members, value = .object members ∧
      List.Forall₂ (fun name field => HasValues name.toList members field.toList) names fields := by
  cases value with
  | array items => exact absurd rfl (noList items)
  | object members =>
    have keys : ∀ member ∈ members, Quoted.IsSpelling member.1 := fun member inside =>
      (wellSpelled_object_iff.mp well member inside).1
    have read : ∀ named, named? members = some named →
        ((names.mapM fun name =>
          match named.filter (·.1 = name.toList) with
          | [] => some none
          | [(_, value)] => some (some value)
          | _ => none) = some fields ↔
        List.Forall₂ (fun name field => HasValues name.toList members field.toList) names fields) := by
      intro named known
      simp only [mapM_eq_some_iff, field_eq_some_iff, hasValues_iff keys known]
    constructor
    · intro success
      obtain ⟨named, known, success⟩ := Option.bind_eq_some_iff.mp success
      exact ⟨members, rfl, (read named known).mp success⟩
    · rintro ⟨members', same, each⟩
      obtain rfl := Value.object.inj same
      have known : ∃ named, named? members = some named := by
        cases each with
        | nil => exact absurd rfl full
        | cons first _ => exact first.exists_named?
      obtain ⟨named, known⟩ := known
      exact Option.bind_eq_some_iff.mpr ⟨named, known, (read named known).mpr each⟩
  | null | boolean | number | string => simp [fields?]

/-- A list gives each name a value just when it has as many items as there are names. -/
theorem fields?_array_eq_iff {names : List String} {items values : List Value} :
    (Value.array items).fields? names = some (values.map some) ↔
      items = values ∧ values.length = names.length := by
  simp only [fields?, Option.ite_none_right_eq_some, Option.some.injEq]
  constructor
  · rintro ⟨bound, same⟩
    have size : values.length = names.length := by
      simpa using (congrArg List.length same).symm
    refine ⟨List.ext_getElem? fun index => ?_, size⟩
    rcases Nat.lt_or_ge index names.length with inside | outside
    · have known : values[index]? = some values[index] := List.getElem?_eq_getElem (size ▸ inside)
      have entry := congrArg (fun list => list[index]?) same
      simp only [List.getElem?_map, List.getElem?_range inside, known, Option.map_some] at entry
      rw [known, Option.some.inj entry]
    · rw [List.getElem?_eq_none (Nat.le_trans bound outside), List.getElem?_eq_none (size ▸ outside)]
  · rintro ⟨rfl, size⟩
    refine ⟨Nat.le_of_eq size, List.ext_getElem (by simp [size]) ?_⟩
    intro index inside inside'
    rw [List.length_map, List.length_range, ← size] at inside
    simp [List.getElem?_eq_getElem inside]

theorem fields?_single_iff {field : Option Value} (well : WellSpelled value)
    (noList : ∀ items, value ≠ .array items) :
    value.fields? [name] = some [field] ↔
      ∃ members, value = .object members ∧ HasValues name.toList members field.toList := by
  rw [fields?_eq_some_iff well noList (by simp)]
  simp only [List.forall₂_cons, List.Forall₂.nil, and_true]

theorem fields?_eq_hasField_iff (well : WellSpelled value) (noList : ∀ items, value ≠ .array items) :
    value.fields? [name] = some [some held] ↔ value.HasField name held :=
  fields?_single_iff well noList

theorem fields?_eq_lacksField_iff (well : WellSpelled value)
    (noList : ∀ items, value ≠ .array items) :
    value.fields? [name] = some [none] ↔ value.LacksField name :=
  fields?_single_iff well noList

namespace HasField

theorem noList (known : value.HasField name held) : ∀ items, value ≠ .array items := by
  obtain ⟨members, rfl, _⟩ := known
  exact object_ne_array members

theorem wellSpelled (known : value.HasField name held) (well : WellSpelled value) :
    WellSpelled held := by
  obtain ⟨members, rfl, values⟩ := known
  obtain ⟨key, listed⟩ := values.exists_mem List.mem_cons_self
  exact (wellSpelled_object_iff.mp well _ listed).2

theorem fields?_eq (known : value.HasField name held) (well : WellSpelled value) :
    value.fields? [name] = some [some held] :=
  (fields?_eq_hasField_iff well known.noList).mpr known

theorem unique {other : Value} (known : value.HasField name held) (known' : value.HasField name other)
    (well : WellSpelled value) : held = other := by
  have same := (known.fields?_eq well).symm.trans (known'.fields?_eq well)
  simpa using same

end HasField

theorem LacksField.noList (lacks : value.LacksField name) : ∀ items, value ≠ .array items := by
  obtain ⟨members, rfl, _⟩ := lacks
  exact object_ne_array members

/-- Only the canonical numerals of numbers in range are read. -/
theorem uint64?_eq_some_iff {number : UInt64} :
    value.uint64? = some number ↔ value = .number (decimal number.toNat) := by
  constructor
  · intro success
    obtain ⟨whole, known, bounded⟩ := Option.bind_eq_some_iff.mp success
    split at bounded
    · next bound =>
      obtain rfl := Option.some.inj bounded
      cases value with
      | number spelling =>
        simp only [natural?, Number.natural?] at known
        split at known
        · next same =>
          obtain rfl := Option.some.inj known
          rw [UInt64.toNat_ofNatLT, same]
        · cases known
      | _ => cases known
    · cases bounded
  · rintro rfl
    have bound : number.toNat < UInt64.size := number.toNat_lt_size
    simp only [uint64?, natural?, Number.natural?_decimal, Option.bind_some, dif_pos bound,
      UInt64.ofNatLT_toNat]

end Value

end FlowAudit.Json
