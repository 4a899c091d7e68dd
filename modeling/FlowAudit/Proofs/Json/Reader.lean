import FlowAudit.Json.Printer
import FlowAudit.Json.Reader
import FlowAudit.Proofs.Json.Number
import FlowAudit.Proofs.Json.Quoted

set_option autoImplicit false

/-!
The texts that spell a JSON value, with blanks anywhere between the tokens. Reading such a text gives
the value (`parse?_of_spells`).
-/
namespace FlowAudit.Json

def IsBlank (text : List Char) : Prop :=
  ∀ char ∈ text, isBlank char = true

theorem isBlank_nil : IsBlank [] := by
  simp [IsBlank]

theorem skipBlank_append {front : List Char} (blank : IsBlank front) (rest : List Char) :
    skipBlank (front ++ rest) = skipBlank rest :=
  List.dropWhile_append_of_pos blank

theorem skipBlank_cons {char : Char} (visible : isBlank char = false) (rest : List Char) :
    skipBlank (char :: rest) = char :: rest := by
  simp only [skipBlank, List.dropWhile_cons, visible, Bool.false_eq_true, if_false]

theorem delimited_append {back rest : List Char} (blank : IsBlank back)
    (ends : Number.Delimited rest) : Number.Delimited (back ++ rest) := by
  cases back with
  | nil => exact ends
  | cons char back =>
    apply Number.delimited_cons
    have first := blank char List.mem_cons_self
    simp only [isBlank, Bool.or_eq_true, beq_iff_eq] at first
    rcases first with ((rfl | rfl) | rfl) | rfl <;> decide

/-- Reading starts at the first character that is not blank. -/
theorem readValue_congr {text other : List Char} (same : skipBlank text = skipBlank other)
    (fuel : Nat) : readValue fuel text = readValue fuel other := by
  cases fuel with
  | zero => simp only [readValue]
  | succ fuel => simp only [readValue, same]

/-- The characters at which a number may start are those of no other token. -/
theorem numberStart_ne {char : Char} (first : char = '-' ∨ char.isDigit) :
    isBlank char = false ∧ char ≠ 'n' ∧ char ≠ 't' ∧ char ≠ 'f' ∧ char ≠ '"' ∧ char ≠ '[' ∧
      char ≠ '{' := by
  rcases first with rfl | digit
  · decide
  · have other : ∀ mark : Char, mark.isDigit = false → char ≠ mark := by
      rintro mark none rfl
      rw [none] at digit
      cases digit
    have spaces : isBlank char = false := by
      simp only [isBlank, Bool.or_eq_false_iff, beq_eq_false_iff_ne]
      exact ⟨⟨⟨other ' ' rfl, other '\t' rfl⟩, other '\n' rfl⟩, other '\r' rfl⟩
    exact ⟨spaces, other 'n' rfl, other 't' rfl, other 'f' rfl, other '"' rfl, other '[' rfl,
      other '{' rfl⟩

theorem readValue_number {spelling rest : List Char} (spelled : Number.IsSpelling spelling)
    (ends : Number.Delimited rest) (fuel : Nat) :
    readValue (fuel + 1) (spelling ++ rest) = some (.number spelling, rest) := by
  have scanned := Number.scan_append ends spelled
  obtain ⟨char, text, same, first⟩ := Number.scan_head scanned
  obtain ⟨visible, notNull, notTrue, notFalse, notQuote, notArray, notObject⟩ :=
    numberStart_ne first
  rw [same] at scanned ⊢
  rw [readValue, skipBlank_cons visible]
  split
  · next shape => exact absurd (List.cons.inj shape).1 notNull
  · next shape => exact absurd (List.cons.inj shape).1 notTrue
  · next shape => exact absurd (List.cons.inj shape).1 notFalse
  · next shape => exact absurd (List.cons.inj shape).1 notQuote
  · next shape => exact absurd (List.cons.inj shape).1 notArray
  · next shape => exact absurd (List.cons.inj shape).1 notObject
  · rw [scanned]
    rfl

theorem readValue_string {spelling : List Char} (spelled : Quoted.IsSpelling spelling)
    (rest : List Char) (fuel : Nat) :
    readValue (fuel + 1) (quote spelling ++ rest) = some (.string spelling, rest) := by
  have scanned : Quoted.scan (spelling ++ '"' :: rest) = some (spelling, rest) :=
    (Quoted.scan_eq_some_iff _ _ _).mpr ⟨spelled, rfl⟩
  have shape : quote spelling ++ rest = '"' :: (spelling ++ '"' :: rest) := by
    simp [quote]
  rw [shape, readValue, skipBlank_cons rfl]
  simp only [scanned, Option.map_some]

/-- No value starts with a closing bracket. -/
theorem readValue_close (fuel : Nat) (rest : List Char) : readValue fuel (']' :: rest) = none := by
  cases fuel with
  | zero => rfl
  | succ fuel => rfl

/-- Where an item can be read the array is not empty. -/
theorem readValue_array {fuel : Nat} {text : List Char} {found : Value × List Char}
    (items : readItems fuel [] text = some found) :
    readValue (fuel + 1) ('[' :: text) = some found := by
  have opened : ∀ after, skipBlank text ≠ ']' :: after := by
    intro after same
    have closed : ∀ fuel, readValue fuel text = none := by
      intro fuel
      have skipped : skipBlank text = skipBlank (']' :: after) := by
        rw [same, skipBlank_cons rfl]
      rw [readValue_congr skipped, readValue_close]
    cases fuel with
    | zero => cases items
    | succ fuel =>
      rw [readItems, closed] at items
      cases items
  rw [readValue, skipBlank_cons rfl]
  -- The alternative for the empty array is discharged with `opened`.
  simp only
  exact items

/-- Where a member can be read the object is not empty. -/
theorem readValue_object {fuel : Nat} {text : List Char} {found : Value × List Char}
    (members : readMembers fuel [] text = some found) :
    readValue (fuel + 1) ('{' :: text) = some found := by
  have opened : ∀ after, skipBlank text ≠ '}' :: after := by
    intro after same
    have closed : ∀ fuel, readMember fuel text = none := by
      intro fuel
      cases fuel with
      | zero => rfl
      | succ fuel =>
        rw [readMember, same]
        rfl
    cases fuel with
    | zero => cases members
    | succ fuel =>
      rw [readMembers, closed] at members
      cases members
  rw [readValue, skipBlank_cons rfl]
  -- The alternative for the empty object is discharged with `opened`.
  simp only
  exact members

/-- A member of an object as it is written: blanks, the key, blanks, a colon and the text of the
value with the blanks around it. -/
structure MemberText where
  front : List Char
  key : List Char
  middle : List Char
  value : Value
  text : List Char

namespace MemberText

def member (part : MemberText) : List Char × Value :=
  (part.key, part.value)

def written (part : MemberText) : List Char :=
  part.front ++ quote part.key ++ part.middle ++ ':' :: part.text

/-- The key is the spelling of a string and stands between blanks. -/
structure HasKey (part : MemberText) : Prop where
  front : IsBlank part.front
  key : Quoted.IsSpelling part.key
  middle : IsBlank part.middle

end MemberText

/-- The texts that spell a value. -/
inductive Spells : Value → List Char → Prop
  | blanks {value : Value} {front text back : List Char} (before : IsBlank front)
      (spelled : Spells value text) (after : IsBlank back) :
      Spells value (front ++ text ++ back)
  | null : Spells .null ['n', 'u', 'l', 'l']
  | true : Spells (.boolean true) ['t', 'r', 'u', 'e']
  | false : Spells (.boolean false) ['f', 'a', 'l', 's', 'e']
  | number {spelling : List Char} (spelled : Number.IsSpelling spelling) :
      Spells (.number spelling) spelling
  | string {spelling : List Char} (spelled : Quoted.IsSpelling spelling) :
      Spells (.string spelling) (quote spelling)
  | emptyArray {inside : List Char} (blank : IsBlank inside) :
      Spells (.array []) ('[' :: inside ++ [']'])
  | array {items : List (Value × List Char)} (full : items ≠ [])
      (each : ∀ item ∈ items, Spells item.1 item.2) :
      Spells (.array (items.map Prod.fst)) ('[' :: [','].intercalate (items.map Prod.snd) ++ [']'])
  | emptyObject {inside : List Char} (blank : IsBlank inside) :
      Spells (.object []) ('{' :: inside ++ ['}'])
  | object {parts : List MemberText} (full : parts ≠ []) (keys : ∀ part ∈ parts, part.HasKey)
      (each : ∀ part ∈ parts, Spells part.value part.text) :
      Spells (.object (parts.map MemberText.member))
        ('{' :: [','].intercalate (parts.map MemberText.written) ++ ['}'])

/-- Reading finds the value at the text, whatever stands after it, and leaves at most blanks of
the text. -/
def Reads (value : Value) (text : List Char) : Prop :=
  ∀ fuel rest, text.length ≤ fuel → Number.Delimited rest →
    ∃ after, readValue fuel (text ++ rest) = some (value, after) ∧ skipBlank after = skipBlank rest

/-- A value that ends with its own last character leaves the whole rest. -/
theorem reads_of_readValue {value : Value} {text : List Char} (full : 0 < text.length)
    (read : ∀ fuel rest, text.length ≤ fuel + 1 → Number.Delimited rest →
      readValue (fuel + 1) (text ++ rest) = some (value, rest)) : Reads value text := by
  intro fuel rest enough ends
  obtain ⟨fuel, rfl⟩ : ∃ less, fuel = less + 1 := Nat.exists_eq_add_one.mpr (by omega)
  exact ⟨rest, read fuel rest enough ends, rfl⟩

theorem readItems_of_reads {items : List (Value × List Char)} (full : items ≠ [])
    (each : ∀ item ∈ items, Reads item.1 item.2) (fuel : Nat) (before : List Value)
    (rest : List Char) (enough : ([','].intercalate (items.map Prod.snd)).length < fuel) :
    readItems fuel before ([','].intercalate (items.map Prod.snd) ++ ']' :: rest) =
      some (.array (before.reverse ++ items.map Prod.fst), rest) := by
  induction items generalizing fuel before with
  | nil => exact absurd rfl full
  | cons item others ih =>
    obtain ⟨fuel, rfl⟩ : ∃ less, fuel = less + 1 := Nat.exists_eq_add_one.mpr (by omega)
    have first : Reads item.1 item.2 := each item List.mem_cons_self
    cases others with
    | nil =>
      simp only [List.map_cons, List.map_nil, List.intercalate_singleton] at enough ⊢
      obtain ⟨after, read, same⟩ := first fuel (']' :: rest) (by omega)
        (Number.delimited_cons rfl rest)
      rw [readItems, read]
      simp only [same, skipBlank_cons (show isBlank ']' = false from rfl), List.reverse_cons]
    | cons next others =>
      have later : ∀ item ∈ next :: others, Reads item.1 item.2 := by
        intro item inside
        exact each item (List.mem_cons_of_mem _ inside)
      have joined : [','].intercalate ((item :: next :: others).map Prod.snd) =
          item.2 ++ ',' :: [','].intercalate ((next :: others).map Prod.snd) := by
        simp
      rw [joined, List.length_append, List.length_cons] at enough
      rw [joined, List.append_assoc, List.cons_append]
      obtain ⟨after, read, same⟩ := first fuel (',' :: ([','].intercalate
        ((next :: others).map Prod.snd) ++ ']' :: rest)) (by omega) (Number.delimited_cons rfl _)
      rw [readItems, read]
      simp only [same, skipBlank_cons (show isBlank ',' = false from rfl)]
      rw [ih (by simp) later fuel (item.1 :: before) (by omega)]
      simp

theorem readMember_of_reads {part : MemberText} (named : part.HasKey)
    (reads : Reads part.value part.text) {fuel : Nat} {rest : List Char}
    (enough : part.written.length ≤ fuel) (ends : Number.Delimited rest) :
    ∃ after, readMember fuel (part.written ++ rest) = some (part.member, after) ∧
      skipBlank after = skipBlank rest := by
  obtain ⟨front, key, middle, value, text⟩ := part
  have size : text.length + 3 ≤ (MemberText.written ⟨front, key, middle, value, text⟩).length := by
    simp only [MemberText.written, quote, List.length_append, List.length_cons]
    omega
  obtain ⟨fuel, rfl⟩ : ∃ less, fuel = less + 1 := Nat.exists_eq_add_one.mpr (by omega)
  have short : text.length ≤ fuel := by omega
  obtain ⟨after, read, same⟩ := reads fuel rest short ends
  refine ⟨after, ?_, same⟩
  have scanned : Quoted.scan (key ++ '"' :: (middle ++ ':' :: (text ++ rest))) =
      some (key, middle ++ ':' :: (text ++ rest)) :=
    (Quoted.scan_eq_some_iff _ _ _).mpr ⟨named.key, rfl⟩
  have shape : MemberText.written ⟨front, key, middle, value, text⟩ ++ rest =
      front ++ '"' :: (key ++ '"' :: (middle ++ ':' :: (text ++ rest))) := by
    simp [MemberText.written, quote]
  have key : skipBlank ('"' :: (key ++ '"' :: (middle ++ ':' :: (text ++ rest)))) = _ :=
    skipBlank_cons rfl _
  have colon : skipBlank (middle ++ ':' :: (text ++ rest)) = ':' :: (text ++ rest) := by
    rw [skipBlank_append named.middle, skipBlank_cons rfl]
  rw [shape, readMember, skipBlank_append named.front, key]
  simp only [scanned, colon, read, Option.map_some, MemberText.member]

theorem readMembers_of_reads {parts : List MemberText} (full : parts ≠ [])
    (keys : ∀ part ∈ parts, part.HasKey) (each : ∀ part ∈ parts, Reads part.value part.text)
    (fuel : Nat) (before : List (List Char × Value)) (rest : List Char)
    (enough : ([','].intercalate (parts.map MemberText.written)).length < fuel) :
    readMembers fuel before ([','].intercalate (parts.map MemberText.written) ++ '}' :: rest) =
      some (.object (before.reverse ++ parts.map MemberText.member), rest) := by
  induction parts generalizing fuel before with
  | nil => exact absurd rfl full
  | cons part others ih =>
    obtain ⟨fuel, rfl⟩ : ∃ less, fuel = less + 1 := Nat.exists_eq_add_one.mpr (by omega)
    have named : part.HasKey := keys part List.mem_cons_self
    have first : Reads part.value part.text := each part List.mem_cons_self
    cases others with
    | nil =>
      simp only [List.map_cons, List.map_nil, List.intercalate_singleton] at enough ⊢
      have ends : Number.Delimited ('}' :: rest) := Number.delimited_cons rfl rest
      obtain ⟨after, read, same⟩ :=
        readMember_of_reads named first (Nat.le_of_lt_succ enough) ends
      rw [readMembers, read]
      simp only [same, skipBlank_cons (show isBlank '}' = false from rfl), List.reverse_cons]
    | cons next others =>
      have laterKeys : ∀ part ∈ next :: others, part.HasKey := by
        intro part inside
        exact keys part (List.mem_cons_of_mem _ inside)
      have later : ∀ part ∈ next :: others, Reads part.value part.text := by
        intro part inside
        exact each part (List.mem_cons_of_mem _ inside)
      have joined : [','].intercalate ((part :: next :: others).map MemberText.written) =
          part.written ++ ',' :: [','].intercalate ((next :: others).map MemberText.written) := by
        simp
      rw [joined, List.length_append, List.length_cons] at enough
      rw [joined, List.append_assoc, List.cons_append]
      have ends : Number.Delimited (',' :: ([','].intercalate
          ((next :: others).map MemberText.written) ++ '}' :: rest)) :=
        Number.delimited_cons rfl _
      have short : part.written.length ≤ fuel := by omega
      obtain ⟨after, read, same⟩ := readMember_of_reads named first short ends
      rw [readMembers, read]
      simp only [same, skipBlank_cons (show isBlank ',' = false from rfl)]
      rw [ih (by simp) laterKeys later fuel (part.member :: before) (by omega)]
      simp

theorem reads_of_spells {value : Value} {text : List Char} (spelled : Spells value text) :
    Reads value text := by
  induction spelled with
  | @blanks value front text back before _ after ih =>
    intro fuel rest enough ends
    simp only [List.length_append] at enough
    obtain ⟨left, read, same⟩ := ih fuel (back ++ rest) (by omega) (delimited_append after ends)
    refine ⟨left, ?_, ?_⟩
    · have skipped : skipBlank (front ++ text ++ back ++ rest) =
          skipBlank (text ++ (back ++ rest)) := by
        rw [List.append_assoc, List.append_assoc, skipBlank_append before]
      rw [readValue_congr skipped, read]
    · rw [same, skipBlank_append after]
  | null => exact reads_of_readValue (by decide) fun _ _ _ _ => rfl
  | true => exact reads_of_readValue (by decide) fun _ _ _ _ => rfl
  | false => exact reads_of_readValue (by decide) fun _ _ _ _ => rfl
  | @number spelling spelled =>
    apply reads_of_readValue
    · obtain ⟨char, rest, rfl, _⟩ := Number.scan_head spelled
      simp
    · intro fuel rest _ ends
      exact readValue_number spelled ends fuel
  | string spelled =>
    apply reads_of_readValue (by simp [quote])
    intro fuel rest _ _
    exact readValue_string spelled rest fuel
  | @emptyArray inside blank =>
    apply reads_of_readValue (by simp)
    intro fuel rest _ _
    have closed : skipBlank (inside ++ ']' :: rest) = ']' :: rest := by
      rw [skipBlank_append blank, skipBlank_cons rfl]
    have shape : '[' :: inside ++ [']'] ++ rest = '[' :: (inside ++ ']' :: rest) := by
      simp
    rw [shape, readValue, skipBlank_cons rfl]
    simp only [closed]
  | @array items full _ ih =>
    apply reads_of_readValue (by simp)
    intro fuel rest enough _
    have shape : '[' :: [','].intercalate (items.map Prod.snd) ++ [']'] ++ rest =
        '[' :: ([','].intercalate (items.map Prod.snd) ++ ']' :: rest) := by
      simp
    simp only [List.length_append, List.length_cons, List.length_nil] at enough
    rw [shape]
    exact readValue_array (readItems_of_reads full ih fuel [] rest (by omega))
  | @emptyObject inside blank =>
    apply reads_of_readValue (by simp)
    intro fuel rest _ _
    have closed : skipBlank (inside ++ '}' :: rest) = '}' :: rest := by
      rw [skipBlank_append blank, skipBlank_cons rfl]
    have shape : '{' :: inside ++ ['}'] ++ rest = '{' :: (inside ++ '}' :: rest) := by
      simp
    rw [shape, readValue, skipBlank_cons rfl]
    simp only [closed]
  | @object parts full keys _ ih =>
    apply reads_of_readValue (by simp)
    intro fuel rest enough _
    have shape : '{' :: [','].intercalate (parts.map MemberText.written) ++ ['}'] ++ rest =
        '{' :: ([','].intercalate (parts.map MemberText.written) ++ '}' :: rest) := by
      simp
    simp only [List.length_append, List.length_cons, List.length_nil] at enough
    rw [shape]
    exact readValue_object (readMembers_of_reads full keys ih fuel [] rest (by omega))

/-- Every text that spells a value is read as this value. -/
theorem parse?_of_spells {value : Value} {text : List Char} (spelled : Spells value text) :
    parse? text = some value := by
  obtain ⟨after, read, same⟩ :=
    reads_of_spells spelled (3 * text.length + 3) [] (by omega) Number.delimited_nil
  rw [List.append_nil] at read
  have done : skipBlank after = [] := same
  simp only [parse?, read, done, List.isEmpty_nil, if_true]

/-- Without the blanks at its end a text spells the same value, and ends in a visible character. -/
theorem Spells.exists_core {value : Value} {text : List Char} (spelled : Spells value text) :
    ∃ front last back, text = front ++ [last] ++ back ∧ 32 ≤ last.toNat ∧ IsBlank back ∧
      Spells value (front ++ [last]) := by
  have ended : ∀ front {value last}, Spells value (front ++ [last]) → 32 ≤ last.toNat →
      ∃ front' last' back, front ++ [last] = front' ++ [last'] ++ back ∧ 32 ≤ last'.toNat ∧
        IsBlank back ∧ Spells value (front' ++ [last']) := by
    intro front value last spelled visible
    exact ⟨front, last, [], (List.append_nil _).symm, visible, isBlank_nil, spelled⟩
  induction spelled with
  | @blanks value front text back before _ after ih =>
    obtain ⟨inner, last, blank, rfl, visible, ends, core⟩ := ih
    refine ⟨front ++ inner, last, blank ++ back, by simp, visible, ?_, ?_⟩
    · exact List.forall_mem_append.mpr ⟨ends, after⟩
    · simpa using Spells.blanks before core isBlank_nil
  | null => exact ended ['n', 'u', 'l'] Spells.null (by decide)
  | true => exact ended ['t', 'r', 'u'] Spells.true (by decide)
  | false => exact ended ['f', 'a', 'l', 's'] Spells.false (by decide)
  | @number spelling spelled =>
    obtain ⟨char, rest, same, _⟩ := Number.scan_head spelled
    have filled : spelling ≠ [] := same ▸ List.cons_ne_nil char rest
    have visible := spelled.visible _ (List.getLast_mem filled)
    have number := Spells.number spelled
    rw [← List.dropLast_concat_getLast filled] at number ⊢
    exact ended _ number visible
  | @string spelling spelled => exact ended ('"' :: spelling) (Spells.string spelled) (by decide)
  | emptyArray blank => exact ended _ (Spells.emptyArray blank) (by decide)
  | array full each => exact ended _ (Spells.array full each) (by decide)
  | emptyObject blank => exact ended _ (Spells.emptyObject blank) (by decide)
  | object full keys each => exact ended _ (Spells.object full keys each) (by decide)

end FlowAudit.Json
