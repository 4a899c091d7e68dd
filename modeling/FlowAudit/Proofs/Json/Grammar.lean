import FlowAudit.Proofs.Json.Reader

set_option autoImplicit false

/-!
The texts that can be read. Whatever a reading step consumes spells what it gives, so that a text is read as
a value exactly when it spells this value (`parse?_eq_some_iff`).
-/
namespace FlowAudit.Json

theorem exists_isBlank_append (text : List Char) :
    ∃ front, IsBlank front ∧ text = front ++ skipBlank text :=
  ⟨text.takeWhile isBlank, List.all_eq_true.mp List.all_takeWhile,
    List.takeWhile_append_dropWhile.symm⟩

/-! What one step reads when it succeeds. -/

def ReadsValues (fuel : Nat) : Prop :=
  ∀ text value rest, readValue fuel text = some (value, rest) →
    ∃ front, text = front ++ rest ∧ Spells value front

def ReadsItems (fuel : Nat) : Prop :=
  ∀ before text value rest, readItems fuel before text = some (value, rest) →
    ∃ items : List (Value × List Char), items ≠ [] ∧ (∀ item ∈ items, Spells item.1 item.2) ∧
      value = .array (before.reverse ++ items.map Prod.fst) ∧
      text = [','].intercalate (items.map Prod.snd) ++ ']' :: rest

def ReadsMember (fuel : Nat) : Prop :=
  ∀ text member rest, readMember fuel text = some (member, rest) →
    ∃ part : MemberText, part.HasKey ∧ Spells part.value part.text ∧ member = part.member ∧
      text = part.written ++ rest

def ReadsMembers (fuel : Nat) : Prop :=
  ∀ before text value rest, readMembers fuel before text = some (value, rest) →
    ∃ parts : List MemberText, parts ≠ [] ∧ (∀ part ∈ parts, part.HasKey) ∧
      (∀ part ∈ parts, Spells part.value part.text) ∧
      value = .object (before.reverse ++ parts.map MemberText.member) ∧
      text = [','].intercalate (parts.map MemberText.written) ++ '}' :: rest

section Steps

variable {fuel : Nat}

theorem readsItems_succ (values : ReadsValues fuel) (items : ReadsItems fuel) :
    ReadsItems (fuel + 1) := by
  intro before text value rest success
  rw [readItems] at success
  split at success
  · cases success
  · next item after found =>
    obtain ⟨front, rfl, spelled⟩ := values text item after found
    obtain ⟨blanks, blank, shape⟩ := exists_isBlank_append after
    -- The blanks before the comma or the bracket belong to the item.
    have padded : Spells item (front ++ blanks) := by
      simpa using Spells.blanks isBlank_nil spelled blank
    split at success
    · next later comma =>
      obtain ⟨others, full, each, rfl, rfl⟩ := items _ _ _ _ success
      refine ⟨(item, front ++ blanks) :: others, by simp, List.forall_mem_cons.mpr ⟨padded, each⟩,
        by simp, ?_⟩
      rw [shape, comma]
      obtain ⟨second, others, rfl⟩ := List.exists_cons_of_ne_nil full
      simp
    · next later bracket =>
      obtain ⟨rfl, rfl⟩ := Prod.mk.inj (Option.some.inj success)
      refine ⟨[(item, front ++ blanks)], by simp, by simpa using padded, by simp, ?_⟩
      rw [shape, bracket]
      simp
    · cases success

theorem readsMember_succ (values : ReadsValues fuel) : ReadsMember (fuel + 1) := by
  intro text member rest success
  obtain ⟨front, blank, shape⟩ := exists_isBlank_append text
  rw [readMember] at success
  split at success
  · next quoted opened =>
    split at success
    · cases success
    · next key after scanned =>
      obtain ⟨spelled, rfl⟩ := (Quoted.scan_eq_some_iff _ _ _).mp scanned
      obtain ⟨middle, blank', shape'⟩ := exists_isBlank_append after
      split at success
      · next tail colon =>
        obtain ⟨⟨value, left⟩, found, same⟩ := Option.map_eq_some_iff.mp success
        obtain ⟨rfl, rfl⟩ := Prod.mk.inj same
        obtain ⟨inner, rfl, spells⟩ := values _ _ _ found
        refine ⟨⟨front, key, middle, value, inner⟩, ⟨blank, spelled, blank'⟩, spells, rfl, ?_⟩
        rw [shape, opened, shape', colon]
        simp [MemberText.written, quote]
      · cases success
  · cases success

theorem readsMembers_succ (member : ReadsMember fuel) (members : ReadsMembers fuel) :
    ReadsMembers (fuel + 1) := by
  intro before text value rest success
  rw [readMembers] at success
  split at success
  · cases success
  · next pair after found =>
    obtain ⟨⟨front, key, middle, held, inner⟩, named, spelled, rfl, rfl⟩ :=
      member text pair after found
    obtain ⟨blanks, blank, shape⟩ := exists_isBlank_append after
    -- The blanks before the comma or the brace belong to the value of the member.
    let part : MemberText := ⟨front, key, middle, held, inner ++ blanks⟩
    have hasKey : part.HasKey := ⟨named.front, named.key, named.middle⟩
    have padded : Spells part.value part.text := by
      simpa using Spells.blanks isBlank_nil spelled blank
    split at success
    · next later comma =>
      obtain ⟨others, full, keys, each, rfl, rfl⟩ := members _ _ _ _ success
      refine ⟨part :: others, by simp, List.forall_mem_cons.mpr ⟨hasKey, keys⟩,
        List.forall_mem_cons.mpr ⟨padded, each⟩, by simp [part, MemberText.member], ?_⟩
      rw [shape, comma]
      obtain ⟨second, others, rfl⟩ := List.exists_cons_of_ne_nil full
      simp [part, MemberText.written]
    · next later brace =>
      obtain ⟨rfl, rfl⟩ := Prod.mk.inj (Option.some.inj success)
      refine ⟨[part], by simp, by simpa using hasKey, by simpa using padded,
        by simp [part, MemberText.member], ?_⟩
      rw [shape, brace]
      simp [part, MemberText.written]
    · cases success

theorem readsValues_succ (items : ReadsItems fuel) (members : ReadsMembers fuel) :
    ReadsValues (fuel + 1) := by
  intro text value rest success
  obtain ⟨front, blank, shape⟩ := exists_isBlank_append text
  have core : ∃ core, skipBlank text = core ++ rest ∧ Spells value core := by
    rw [readValue] at success
    split at success
    · next after token =>
      obtain ⟨rfl, rfl⟩ := Prod.mk.inj (Option.some.inj success)
      exact ⟨['n', 'u', 'l', 'l'], token, Spells.null⟩
    · next after token =>
      obtain ⟨rfl, rfl⟩ := Prod.mk.inj (Option.some.inj success)
      exact ⟨['t', 'r', 'u', 'e'], token, Spells.true⟩
    · next after token =>
      obtain ⟨rfl, rfl⟩ := Prod.mk.inj (Option.some.inj success)
      exact ⟨['f', 'a', 'l', 's', 'e'], token, Spells.false⟩
    · next after token =>
      obtain ⟨⟨spelling, left⟩, scanned, same⟩ := Option.map_eq_some_iff.mp success
      obtain ⟨rfl, rfl⟩ := Prod.mk.inj same
      obtain ⟨spelled, rfl⟩ := (Quoted.scan_eq_some_iff _ _ _).mp scanned
      exact ⟨quote spelling, by simp [token, quote], Spells.string spelled⟩
    · next after token =>
      split at success
      · next left bracket =>
        obtain ⟨rfl, rfl⟩ := Prod.mk.inj (Option.some.inj success)
        obtain ⟨inside, blank, shape⟩ := exists_isBlank_append after
        refine ⟨_, ?_, Spells.emptyArray blank⟩
        rw [token, shape, bracket]
        simp
      · obtain ⟨found, full, each, rfl, rfl⟩ := items _ _ _ _ success
        exact ⟨_, by simp [token], Spells.array full each⟩
    · next after token =>
      split at success
      · next left brace =>
        obtain ⟨rfl, rfl⟩ := Prod.mk.inj (Option.some.inj success)
        obtain ⟨inside, blank, shape⟩ := exists_isBlank_append after
        refine ⟨_, ?_, Spells.emptyObject blank⟩
        rw [token, shape, brace]
        simp
      · obtain ⟨found, full, keys, each, rfl, rfl⟩ := members _ _ _ _ success
        exact ⟨_, by simp [token], Spells.object full keys each⟩
    · obtain ⟨⟨spelling, left⟩, scanned, same⟩ := Option.map_eq_some_iff.mp success
      obtain ⟨rfl, rfl⟩ := Prod.mk.inj same
      obtain ⟨shape, number⟩ := Number.isNumber_of_scan scanned
      exact ⟨spelling, shape, Spells.number ((Number.isSpelling_iff spelling).mpr number)⟩
  obtain ⟨core, same, spelled⟩ := core
  refine ⟨front ++ core, ?_, ?_⟩
  · rw [List.append_assoc, ← same]
    exact shape
  · simpa using Spells.blanks blank spelled isBlank_nil

end Steps

theorem reads_all (fuel : Nat) :
    ReadsValues fuel ∧ ReadsItems fuel ∧ ReadsMember fuel ∧ ReadsMembers fuel := by
  induction fuel with
  | zero =>
    refine ⟨?_, ?_, ?_, ?_⟩
    · intro text value rest success
      cases success
    · intro before text value rest success
      cases success
    · intro text member rest success
      cases success
    · intro before text value rest success
      cases success
  | succ fuel ih =>
    obtain ⟨values, items, member, members⟩ := ih
    exact ⟨readsValues_succ items members, readsItems_succ values items, readsMember_succ values,
      readsMembers_succ member members⟩

/-- The reader takes the texts that spell a value, and no others. -/
theorem parse?_eq_some_iff (text : List Char) (value : Value) :
    parse? text = some value ↔ Spells value text := by
  constructor
  · intro success
    rw [parse?] at success
    split at success
    · next found rest read =>
      split at success
      · next done =>
        obtain rfl := Option.some.inj success
        obtain ⟨front, rfl, spelled⟩ := (reads_all _).1 _ _ _ read
        obtain ⟨blanks, blank, shape⟩ := exists_isBlank_append rest
        rw [List.isEmpty_iff.mp done, List.append_nil] at shape
        simpa using Spells.blanks isBlank_nil spelled (shape ▸ blank)
      · cases success
    · cases success
  · exact parse?_of_spells

end FlowAudit.Json
