import FlowAudit.Json.Fields
import FlowAudit.Proofs.Json.Reader

set_option autoImplicit false

/-!
The texts that are printed for values, without blanks or indented. Such a text spells the value that it was
written for, so that reading undoes printing (`parse?_compact`, `parse?_indented`).
-/
namespace FlowAudit.Json

open FlowAudit.Text

/-- A value whose numbers, strings and keys are spellings of their kind. -/
inductive WellSpelled : Value → Prop
  | null : WellSpelled .null
  | boolean (value : Bool) : WellSpelled (.boolean value)
  | number {spelling : List Char} (spelled : Number.IsSpelling spelling) :
      WellSpelled (.number spelling)
  | string {spelling : List Char} (spelled : Quoted.IsSpelling spelling) :
      WellSpelled (.string spelling)
  | array {items : List Value} (each : ∀ item ∈ items, WellSpelled item) :
      WellSpelled (.array items)
  | object {members : List (List Char × Value)}
      (keys : ∀ member ∈ members, Quoted.IsSpelling member.1)
      (each : ∀ member ∈ members, WellSpelled member.2) : WellSpelled (.object members)

theorem wellSpelled_of_spells {value : Value} {text : List Char} (spelled : Spells value text) :
    WellSpelled value := by
  induction spelled with
  | blanks _ _ _ ih => exact ih
  | null => exact WellSpelled.null
  | true => exact WellSpelled.boolean _
  | false => exact WellSpelled.boolean _
  | number spelled => exact WellSpelled.number spelled
  | string spelled => exact WellSpelled.string spelled
  | emptyArray _ => exact WellSpelled.array (by simp)
  | array _ _ ih => exact WellSpelled.array (List.forall_mem_map.mpr ih)
  | emptyObject _ => exact WellSpelled.object (by simp) (by simp)
  | object _ keys _ ih =>
    apply WellSpelled.object
    · exact List.forall_mem_map.mpr fun part inside => (keys part inside).key
    · exact List.forall_mem_map.mpr ih

theorem wellSpelled_number_iff {spelling : List Char} :
    WellSpelled (.number spelling) ↔ Number.IsSpelling spelling := by
  refine ⟨fun well => ?_, WellSpelled.number⟩
  cases well with
  | number spelled => exact spelled

theorem wellSpelled_string_iff {spelling : List Char} :
    WellSpelled (.string spelling) ↔ Quoted.IsSpelling spelling := by
  refine ⟨fun well => ?_, WellSpelled.string⟩
  cases well with
  | string spelled => exact spelled

theorem wellSpelled_array_iff {items : List Value} :
    WellSpelled (.array items) ↔ ∀ item ∈ items, WellSpelled item := by
  refine ⟨fun well => ?_, WellSpelled.array⟩
  cases well with
  | array each => exact each

theorem wellSpelled_object_iff {members : List (List Char × Value)} :
    WellSpelled (.object members) ↔
      ∀ member ∈ members, Quoted.IsSpelling member.1 ∧ WellSpelled member.2 := by
  constructor
  · intro well
    cases well with
    | object keys each => exact fun member inside => ⟨keys member inside, each member inside⟩
  · intro each
    exact WellSpelled.object (fun member inside => (each member inside).1)
      fun member inside => (each member inside).2

/-! Compact texts -/

theorem compactItems_eq (items : List Value) :
    compactItems items = [','].intercalate (items.map compact) := by
  induction items with
  | nil => rfl
  | cons item others ih =>
    cases others with
    | nil => simp [compactItems]
    | cons next others => simp [compactItems, ih]

/-- A member as the printer writes it, without blanks. -/
def compactMember (member : List Char × Value) : MemberText :=
  ⟨[], member.1, [], member.2, compact member.2⟩

theorem compactMembers_eq (members : List (List Char × Value)) :
    compactMembers members =
      [','].intercalate ((members.map compactMember).map MemberText.written) := by
  induction members with
  | nil => rfl
  | cons member others ih =>
    cases others with
    | nil => simp [compactMembers, compactMember, MemberText.written]
    | cons next others =>
      simp only [compactMembers, ih]
      simp [compactMember, MemberText.written]

theorem spells_compact {value : Value} (well : WellSpelled value) : Spells value (compact value) := by
  induction well with
  | null => exact Spells.null
  | boolean value =>
    cases value with
    | true => exact Spells.true
    | false => exact Spells.false
  | number spelled => exact Spells.number spelled
  | string spelled => exact Spells.string spelled
  | @array items _ ih =>
    cases items with
    | nil => exact Spells.emptyArray isBlank_nil
    | cons item others =>
      have each : ∀ pair ∈ (item :: others).map fun item => (item, compact item),
          Spells pair.1 pair.2 := by
        intro pair inside
        obtain ⟨source, listed, rfl⟩ := List.mem_map.mp inside
        exact ih source listed
      have spelled := Spells.array (by simp) each
      rw [List.map_map, List.map_map] at spelled
      rw [compact, compactItems_eq]
      have values : (item :: others).map (Prod.fst ∘ fun item => (item, compact item)) =
          item :: others := List.map_id _
      rw [values] at spelled
      exact spelled
  | @object members keys _ ih =>
    cases members with
    | nil => exact Spells.emptyObject isBlank_nil
    | cons member others =>
      have named : ∀ part ∈ (member :: others).map compactMember, part.HasKey := by
        intro part inside
        obtain ⟨source, listed, rfl⟩ := List.mem_map.mp inside
        exact ⟨isBlank_nil, keys source listed, isBlank_nil⟩
      have each : ∀ part ∈ (member :: others).map compactMember, Spells part.value part.text := by
        intro part inside
        obtain ⟨source, listed, rfl⟩ := List.mem_map.mp inside
        exact ih source listed
      have spelled := Spells.object (by simp) named each
      rw [List.map_map] at spelled
      have values : (member :: others).map (MemberText.member ∘ compactMember) =
          member :: others := List.map_id _
      rw [values] at spelled
      rw [compact, compactMembers_eq]
      exact spelled

/-- Reading undoes printing. -/
theorem parse?_compact {value : Value} (well : WellSpelled value) :
    parse? (compact value) = some value :=
  parse?_of_spells (spells_compact well)

/-! Indented texts -/

theorem isBlank_newLine (level : Nat) : IsBlank (newLine level) := by
  intro char inside
  rcases List.mem_cons.mp inside with rfl | inside
  · rfl
  · rw [List.eq_of_mem_replicate inside]
    rfl

/-- Every item has its text, and the last one takes in the blanks before the bracket. -/
theorem exists_itemTexts {items : List Value} (full : items ≠ []) (level : Nat) {back : List Char}
    (after : IsBlank back) (each : ∀ item ∈ items, Spells item (indentedAt level item)) :
    ∃ texts : List (Value × List Char), texts ≠ [] ∧ texts.map Prod.fst = items ∧
      (∀ text ∈ texts, Spells text.1 text.2) ∧
      [','].intercalate (texts.map Prod.snd) = indentedItems level items ++ back := by
  induction items with
  | nil => exact absurd rfl full
  | cons item others ih =>
    obtain ⟨here, later⟩ := List.forall_mem_cons.mp each
    cases others with
    | nil =>
      refine ⟨[(item, newLine level ++ indentedAt level item ++ back)], by simp, rfl, ?_, ?_⟩
      · simpa using Spells.blanks (isBlank_newLine level) here after
      · simp [indentedItems]
    | cons next others =>
      obtain ⟨texts, some, items, spelled, joined⟩ := ih (by simp) later
      obtain ⟨text, texts, rfl⟩ := List.exists_cons_of_ne_nil some
      refine ⟨(item, newLine level ++ indentedAt level item ++ []) :: text :: texts, by simp,
        by rw [List.map_cons, items], ?_, ?_⟩
      · exact List.forall_mem_cons.mpr
          ⟨Spells.blanks (isBlank_newLine level) here isBlank_nil, spelled⟩
      · rw [List.map_cons] at joined
        simp [indentedItems, joined]

/-- A member on a line of its own, with the blanks that end its value. -/
def indentedMember (level : Nat) (back : List Char) (member : List Char × Value) : MemberText :=
  ⟨newLine level, member.1, [], member.2, [' '] ++ indentedAt level member.2 ++ back⟩

theorem written_indentedMember (level : Nat) (back : List Char) (member : List Char × Value) :
    (indentedMember level back member).written =
      newLine level ++ quote member.1 ++ ':' :: ' ' :: indentedAt level member.2 ++ back := by
  simp [indentedMember, MemberText.written]

theorem hasKey_indentedMember {member : List Char × Value} (key : Quoted.IsSpelling member.1)
    (level : Nat) (back : List Char) : (indentedMember level back member).HasKey :=
  ⟨isBlank_newLine level, key, isBlank_nil⟩

theorem spells_indentedMember {level : Nat} {back : List Char} {member : List Char × Value}
    (spelled : Spells member.2 (indentedAt level member.2)) (after : IsBlank back) :
    Spells (indentedMember level back member).value (indentedMember level back member).text :=
  Spells.blanks (by simp [IsBlank, isBlank]) spelled after

theorem exists_memberTexts {members : List (List Char × Value)} (full : members ≠ []) (level : Nat)
    {back : List Char} (after : IsBlank back)
    (keys : ∀ member ∈ members, Quoted.IsSpelling member.1)
    (each : ∀ member ∈ members, Spells member.2 (indentedAt level member.2)) :
    ∃ parts : List MemberText, parts ≠ [] ∧ parts.map MemberText.member = members ∧
      (∀ part ∈ parts, part.HasKey) ∧ (∀ part ∈ parts, Spells part.value part.text) ∧
      [','].intercalate (parts.map MemberText.written) = indentedMembers level members ++ back := by
  induction members with
  | nil => exact absurd rfl full
  | cons member others ih =>
    obtain ⟨key, laterKeys⟩ := List.forall_mem_cons.mp keys
    obtain ⟨here, later⟩ := List.forall_mem_cons.mp each
    cases others with
    | nil =>
      refine ⟨[indentedMember level back member], by simp, rfl, ?_, ?_, ?_⟩
      · simpa using hasKey_indentedMember key level back
      · simpa using spells_indentedMember here after
      · rw [List.map_singleton, List.intercalate_singleton, written_indentedMember, indentedMembers]
    | cons next others =>
      obtain ⟨parts, some, members, named, spelled, joined⟩ := ih (by simp) laterKeys later
      obtain ⟨first, rest, rfl⟩ := List.exists_cons_of_ne_nil some
      refine ⟨indentedMember level [] member :: first :: rest, by simp, ?_,
        List.forall_mem_cons.mpr ⟨hasKey_indentedMember key level [], named⟩,
        List.forall_mem_cons.mpr ⟨spells_indentedMember here isBlank_nil, spelled⟩, ?_⟩
      · rw [List.map_cons, members]
        rfl
      · rw [List.map_cons] at joined
        rw [List.map_cons, List.map_cons, List.intercalate_cons_cons, joined, written_indentedMember]
        simp [indentedMembers]

theorem spells_indentedAt {value : Value} (well : WellSpelled value) (level : Nat) :
    Spells value (indentedAt level value) := by
  induction well generalizing level with
  | null => exact Spells.null
  | boolean value =>
    cases value with
    | true => exact Spells.true
    | false => exact Spells.false
  | number spelled => exact Spells.number spelled
  | string spelled => exact Spells.string spelled
  | @array items _ ih =>
    cases items with
    | nil => exact Spells.emptyArray isBlank_nil
    | cons item others =>
      obtain ⟨texts, some, items, spelled, joined⟩ := exists_itemTexts (by simp) (level + 1)
        (isBlank_newLine level) fun item inside => ih item inside (level + 1)
      have whole := Spells.array some spelled
      rw [items, joined] at whole
      exact whole
  | @object members keys _ ih =>
    cases members with
    | nil => exact Spells.emptyObject isBlank_nil
    | cons member others =>
      obtain ⟨parts, some, members, named, spelled, joined⟩ := exists_memberTexts (by simp)
        (level + 1) (isBlank_newLine level) keys fun member inside => ih member inside (level + 1)
      have whole := Spells.object some named spelled
      rw [members, joined] at whole
      exact whole

theorem parse?_indented {value : Value} (well : WellSpelled value) :
    parse? (indented value) = some value :=
  parse?_of_spells (spells_indentedAt well 0)

theorem text?_ofText (text : String) : (Value.ofText text).text? = some text := by
  simp only [Value.ofText, Value.text?, Quoted.meaning?_spell, Option.map_some,
    String.ofList_toList]

theorem uint32?_decimal (value : UInt32) :
    Value.uint32? (.number (decimal value.toNat)) = some value := by
  have bound : value.toNat < UInt32.size := value.toNat_lt_size
  simp only [Value.uint32?, Value.natural?, Number.natural?_decimal, Option.bind_some, dif_pos bound,
    UInt32.ofNatLT_toNat]

/-! Characters of compact texts -/

theorem mem_intercalate {separator : Char} {texts : List (List Char)} {char : Char}
    (inside : char ∈ [separator].intercalate texts) :
    char = separator ∨ ∃ text ∈ texts, char ∈ text := by
  induction texts with
  | nil => cases inside
  | cons text others ih =>
    cases others with
    | nil =>
      rw [List.intercalate_singleton] at inside
      exact Or.inr ⟨text, List.mem_cons_self, inside⟩
    | cons next others =>
      simp only [List.intercalate_cons_cons, List.mem_append, List.mem_singleton] at inside
      rcases inside with (inside | same) | inside
      · exact Or.inr ⟨text, List.mem_cons_self, inside⟩
      · exact Or.inl same
      · rcases ih inside with same | ⟨found, listed, inside⟩
        · exact Or.inl same
        · exact Or.inr ⟨found, List.mem_cons_of_mem _ listed, inside⟩

theorem visible_of_mem_quote {spelling : List Char} (spelled : Quoted.IsSpelling spelling) :
    ∀ char ∈ quote spelling, 32 ≤ char.toNat := by
  simp only [quote, List.cons_append, List.mem_cons, List.mem_append, List.not_mem_nil, or_false]
  rintro char (rfl | inside | rfl)
  · decide
  · exact spelled.visible char inside
  · decide

/-- No control character stands in a compact text. -/
theorem visible_of_mem_compact {value : Value} (well : WellSpelled value) :
    ∀ char ∈ compact value, 32 ≤ char.toNat := by
  induction well with
  | null => simp [compact]
  | boolean value => cases value <;> simp [compact]
  | number spelled => exact spelled.visible
  | string spelled => exact visible_of_mem_quote spelled
  | array _ ih =>
    rw [compact, compactItems_eq]
    simp only [List.cons_append, List.mem_cons, List.mem_append, List.not_mem_nil, or_false]
    rintro char (rfl | inside | rfl)
    · decide
    · rcases mem_intercalate inside with rfl | ⟨text, listed, inside⟩
      · decide
      · obtain ⟨item, member, rfl⟩ := List.mem_map.mp listed
        exact ih item member char inside
    · decide
  | object keys _ ih =>
    rw [compact, compactMembers_eq, List.map_map]
    simp only [List.cons_append, List.mem_cons, List.mem_append, List.not_mem_nil, or_false]
    rintro char (rfl | inside | rfl)
    · decide
    · rcases mem_intercalate inside with rfl | ⟨text, listed, inside⟩
      · decide
      · obtain ⟨member, member_mem, rfl⟩ := List.mem_map.mp listed
        simp only [Function.comp_apply, MemberText.written, compactMember, List.nil_append,
          List.append_nil, List.mem_append, List.mem_cons] at inside
        rcases inside with inside | rfl | inside
        · exact visible_of_mem_quote (keys member member_mem) char inside
        · decide
        · exact ih member member_mem char inside
    · decide

end FlowAudit.Json
