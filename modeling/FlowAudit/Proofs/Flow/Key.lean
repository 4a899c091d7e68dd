import FlowAudit.Flow.Key
import FlowAudit.Proofs.Text.Reading

set_option autoImplicit false

/-!
The texts of flow keys. A key is read from the texts that spell its ports (`read?_eq_some_iff`), among
them the one that is written for it; no such text holds anything but digits, signs and hyphens. Of the
texts of a key one is canonical, the one that is written (`parse?_accepts_spellings`).
-/
namespace FlowAudit.Flow.Key

open FlowAudit.Text

/-- The numerals of both ports, with a hyphen between them. -/
def IsSpelled (key : Key) (text : List Char) : Prop :=
  ∃ first second, text = first ++ '-' :: second ∧ IsNumeral first key.first.toNat ∧
    IsNumeral second key.second.toNat

theorem read?_eq_some_iff (text : List Char) (key : Key) :
    read? text = some key ↔ key.IsSpelled text := by
  simp only [read?, Option.bind_eq_bind, Option.bind_eq_some_iff, Option.pure_def, Option.some.injEq,
    uint16?_eq_some_iff, Prod.exists]
  constructor
  · rintro ⟨first, second, parted, port, source, port', destination, rfl⟩
    have whole := (cutAtFirst_single_iff _ _ _ _).mp ((cut_eq_some_iff _ _ _ _).mp parted)
    exact ⟨first, second, whole.1, source, destination⟩
  · rintro ⟨first, second, rfl, source, destination⟩
    have hyphen : '-' ∉ first := source.not_mem (by decide) rfl
    exact ⟨first, second, cut_append hyphen second, key.first, source, key.second, destination, rfl⟩

theorem isSpelled_spelling (key : Key) : key.IsSpelled key.spelling :=
  ⟨decimal key.first.toNat, decimal key.second.toNat, rfl, isNumeral_decimal _, isNumeral_decimal _⟩

theorem read?_spelling (key : Key) : read? key.spelling = some key :=
  (read?_eq_some_iff _ _).mpr key.isSpelled_spelling

theorem IsSpelled.hyphen_mem {key : Key} {text : List Char} (spelled : key.IsSpelled text) :
    '-' ∈ text := by
  obtain ⟨first, second, rfl, _, _⟩ := spelled
  exact List.mem_append_right first List.mem_cons_self

theorem IsSpelled.not_mem {key : Key} {text : List Char} (spelled : key.IsSpelled text) {char : Char}
    (notHyphen : char ≠ '-') (notPlus : char ≠ '+') (other : char.isDigit = false) : char ∉ text := by
  obtain ⟨first, second, rfl, source, destination⟩ := spelled
  simp only [List.mem_append, List.mem_cons, not_or]
  exact ⟨source.not_mem notPlus other, notHyphen, destination.not_mem notPlus other⟩

/-- The canonical numerals of both ports, with a hyphen between them. -/
def IsCanonicalText (key : Key) (text : List Char) : Prop :=
  ∃ first second, text = first ++ '-' :: second ∧
    (IsNumeral first key.first.toNat ∧ IsCanonical first) ∧
    IsNumeral second key.second.toNat ∧ IsCanonical second

theorem isCanonicalText_iff (key : Key) (text : List Char) :
    key.IsCanonicalText text ↔ text = key.spelling := by
  simp only [IsCanonicalText, isNumeral_and_isCanonical_iff, spelling]
  constructor
  · rintro ⟨first, second, rfl, rfl, rfl⟩
    rfl
  · rintro rfl
    exact ⟨_, _, rfl, rfl, rfl⟩

theorem parse?_eq_some_iff (text : String) (key : Key) :
    parse? text = some key ↔ key.IsSpelled text.toList :=
  read?_eq_some_iff text.toList key

theorem parse?_text (key : Key) : parse? key.text = some key := by
  rw [parse?, text, String.toList_ofList, read?_spelling]

/-- The numerals of two numbers that are ports, with a hyphen between them, spell a key. -/
theorem exists_isSpelled_iff (text : List Char) :
    (∃ key : Key, key.IsSpelled text) ↔
      ∃ first second source destination, text = first ++ '-' :: second ∧
        IsNumeral first source ∧ IsNumeral second destination ∧
        source ≤ 65535 ∧ destination ≤ 65535 := by
  constructor
  · rintro ⟨key, first, second, whole, source, destination⟩
    exact ⟨first, second, _, _, whole, source, destination,
      Nat.le_of_lt_succ key.first.toNat_lt_size, Nat.le_of_lt_succ key.second.toNat_lt_size⟩
  · rintro ⟨first, second, source, destination, whole, numeral, numeral', bound, bound'⟩
    have port : (UInt16.ofNat source).toNat = source :=
      UInt16.toNat_ofNat_of_lt (Nat.lt_succ_of_le bound)
    have port' : (UInt16.ofNat destination).toNat = destination :=
      UInt16.toNat_ofNat_of_lt (Nat.lt_succ_of_le bound')
    refine ⟨⟨UInt16.ofNat source, UInt16.ofNat destination⟩, first, second, whole, ?_, ?_⟩
    · rwa [port]
    · rwa [port']

/-- A text is read just when it is two numerals of ports with a hyphen between them, and gives these
ports in order. What is written for a key is its one canonical text, and reads as the key. -/
theorem parse?_accepts_spellings :
    (∀ text : String, (∃ key, parse? text = some key) ↔
      ∃ first second source destination, text.toList = first ++ '-' :: second ∧
        IsNumeral first source ∧ IsNumeral second destination ∧
        source ≤ 65535 ∧ destination ≤ 65535) ∧
    (∀ (text : String) key, parse? text = some key ↔
      ∃ first second, text.toList = first ++ '-' :: second ∧
        IsNumeral first key.first.toNat ∧ IsNumeral second key.second.toNat) ∧
    (∀ key, parse? key.text = some key) ∧
    (∀ (text : String) (key : Key), key.IsCanonicalText text.toList ↔ text = key.text) ∧
    ∀ (text other : String) key key', parse? text = some key → parse? other = some key' →
      parse? key.text = parse? text ∧ (key = key' ↔ key.text = key'.text) := by
  refine ⟨?_, parse?_eq_some_iff, parse?_text, ?_, ?_⟩
  · intro text
    rw [← exists_isSpelled_iff]
    exact exists_congr (parse?_eq_some_iff text)
  · intro given key
    rw [isCanonicalText_iff, text, ← String.toList_inj, String.toList_ofList]
  · intro given other key key' accepted _
    refine ⟨(parse?_text key).trans accepted.symm, congrArg text, ?_⟩
    intro same
    exact Option.some.inj ((parse?_text key).symm.trans (same ▸ parse?_text key'))

/-- Signs and leading zeros do not matter; a second hyphen, a minus or a blank does. -/
example : [parse? "+007-65535", parse? "7-65535", parse? "1--2", parse? "-1-2", parse? "1- 2",
    parse? "1-65536"] = [some ⟨7, 65535⟩, some ⟨7, 65535⟩, none, none, none, none] := by decide +kernel

end FlowAudit.Flow.Key
