import FlowAudit.Json.Quoted
import FlowAudit.Proofs.Text

set_option autoImplicit false

/-!
Spellings of JSON strings as rows of pieces. A scan finds exactly such a row before the closing
quote (`scan_eq_some_iff`), and the spelling of a text means the text again (`meaning?_spell`). A text has
many spellings, with escapes or without (`meaning?_eq_some_iff`).
-/
namespace FlowAudit.Json.Quoted

open FlowAudit.Text

/-- What spells one code point or code unit. -/
inductive IsPiece : List Char → Nat → Prop
  | letter {letter char : Char} (known : escapeTarget? letter = some char) :
      IsPiece ['\\', letter] char.toNat
  | unit {a b c d : Char} {unit : Nat} (known : hexUnit? a b c d = some unit) :
      IsPiece ['\\', 'u', a, b, c, d] unit
  | plain {char : Char} (notQuote : char ≠ '"') (notBackslash : char ≠ '\\')
      (visible : 32 ≤ char.toNat) : IsPiece [char] char.toNat

/-- A row of pieces and what they spell. -/
inductive Spells : List Char → List Nat → Prop
  | nil : Spells [] []
  | cons {piece spelling : List Char} {unit : Nat} {units : List Nat} (first : IsPiece piece unit)
      (others : Spells spelling units) : Spells (piece ++ spelling) (unit :: units)

def IsSpelling (spelling : List Char) : Prop :=
  ∃ units, Spells spelling units

theorem letter_ne_u {letter char : Char} (known : escapeTarget? letter = some char) :
    letter ≠ 'u' := by
  rintro rfl
  cases known

theorem scan_piece {piece : List Char} {unit : Nat} (first : IsPiece piece unit)
    (rest : List Char) :
    scan (piece ++ rest) = (scan rest).map fun found => (piece ++ found.1, found.2) := by
  cases first with
  | @letter letter char known =>
    show scan ('\\' :: letter :: rest) = _
    rw [scan, known, Option.isSome_some, if_pos rfl]
    · rfl
    · intro a b c d after same
      exact absurd same (letter_ne_u known)
  | unit known =>
    simp only [List.cons_append, List.nil_append, scan, known, Option.isSome_some, if_true]
  | @plain char notQuote notBackslash visible =>
    show scan (char :: rest) = _
    rw [scan, if_neg]
    · rfl
    · rintro (same | small)
      · exact notBackslash same
      · exact absurd visible (Nat.not_le_of_lt small)
    · exact notQuote
    · intro a b c d after same
      exact absurd same notBackslash
    · intro letter after same
      exact absurd same notBackslash

theorem scan_spells {spelling : List Char} {units : List Nat} (spelled : Spells spelling units)
    (rest : List Char) : scan (spelling ++ '"' :: rest) = some (spelling, rest) := by
  induction spelled with
  | nil => rfl
  | cons first others ih => rw [List.append_assoc, scan_piece first, ih, Option.map_some]

/-- A scan reads a piece and goes on after it. -/
theorem scan_piece_inv {piece rest spelling after : List Char} {unit : Nat}
    (first : IsPiece piece unit) (found : scan (piece ++ rest) = some (spelling, after)) :
    ∃ others, scan rest = some (others, after) ∧ spelling = piece ++ others := by
  rw [scan_piece first] at found
  obtain ⟨⟨others, tail⟩, scanned, same⟩ := Option.map_eq_some_iff.mp found
  obtain ⟨rfl, rfl⟩ := Prod.mk.inj same
  exact ⟨others, scanned, rfl⟩

theorem spells_of_scan {text spelling after : List Char}
    (found : scan text = some (spelling, after)) :
    IsSpelling spelling ∧ text = spelling ++ '"' :: after := by
  induction text using scan.induct generalizing spelling with
  | case1 => cases found
  | case2 rest =>
    obtain ⟨rfl, rfl⟩ := Prod.mk.inj (Option.some.inj found)
    exact ⟨⟨[], Spells.nil⟩, rfl⟩
  | case3 a b c d rest known ih =>
    obtain ⟨unit, known⟩ := Option.isSome_iff_exists.mp known
    obtain ⟨others, scanned, rfl⟩ := scan_piece_inv (IsPiece.unit known) found
    obtain ⟨⟨units, spelled⟩, rfl⟩ := ih scanned
    exact ⟨⟨_, Spells.cons (IsPiece.unit known) spelled⟩, rfl⟩
  | case4 a b c d rest unknown =>
    simp only [scan, if_neg unknown] at found
    cases found
  | case5 letter rest notUnit known ih =>
    obtain ⟨char, known⟩ := Option.isSome_iff_exists.mp known
    obtain ⟨others, scanned, rfl⟩ := scan_piece_inv (IsPiece.letter known) found
    obtain ⟨⟨units, spelled⟩, rfl⟩ := ih scanned
    exact ⟨⟨_, Spells.cons (IsPiece.letter known) spelled⟩, rfl⟩
  | case6 letter rest notUnit unknown =>
    rw [scan, if_neg unknown] at found
    · cases found
    · exact notUnit
  | case7 char rest notQuote notUnit notLetter hidden =>
    rw [scan, if_pos hidden] at found
    · cases found
    · exact notQuote
    · exact notUnit
    · exact notLetter
  | case8 char rest notQuote notUnit notLetter visible ih =>
    obtain ⟨notBackslash, visible⟩ := not_or.mp visible
    have piece := IsPiece.plain notQuote notBackslash (Nat.le_of_not_lt visible)
    obtain ⟨others, scanned, rfl⟩ := scan_piece_inv piece found
    obtain ⟨⟨units, spelled⟩, rfl⟩ := ih scanned
    exact ⟨⟨_, Spells.cons piece spelled⟩, rfl⟩

/-- A scan stops at the first quote that is not part of a piece. -/
theorem scan_eq_some_iff (text spelling after : List Char) :
    scan text = some (spelling, after) ↔
      IsSpelling spelling ∧ text = spelling ++ '"' :: after := by
  constructor
  · exact spells_of_scan
  · rintro ⟨⟨units, spelled⟩, rfl⟩
    exact scan_spells spelled after

instance : DecidablePred IsSpelling := fun spelling =>
  decidable_of_iff (scan (spelling ++ ['"']) = some (spelling, []))
    ((scan_eq_some_iff _ _ _).trans (and_iff_left rfl))

theorem units?_piece {piece : List Char} {unit : Nat} (first : IsPiece piece unit)
    (rest : List Char) : units? (piece ++ rest) = (units? rest).map (unit :: ·) := by
  cases first with
  | @letter letter char known =>
    show units? ('\\' :: letter :: rest) = _
    rw [units?, known]
    · cases units? rest <;> rfl
    · intro a b c d after same
      exact absurd same (letter_ne_u known)
  | unit known =>
    simp only [List.cons_append, List.nil_append, units?, known]
    cases units? rest <;> rfl
  | @plain char notQuote notBackslash visible =>
    show units? (char :: rest) = _
    rw [units?]
    · cases units? rest <;> rfl
    · intro a b c d after same
      exact absurd same notBackslash
    · intro letter after same
      exact absurd same notBackslash

theorem units?_spells {spelling : List Char} {units : List Nat} (spelled : Spells spelling units) :
    units? spelling = some units := by
  induction spelled with
  | nil => rfl
  | cons first others ih => rw [units?_piece first, ih, Option.map_some]

theorem visible_of_escapeTarget? {letter char : Char} (known : escapeTarget? letter = some char) :
    32 ≤ letter.toNat := by
  unfold escapeTarget? at known
  split at known
  case h_9 => cases known
  all_goals decide

theorem bounds_of_hexValue? {char : Char} {value : Nat} (known : hexValue? char = some value) :
    32 ≤ char.toNat ∧ value < 16 := by
  simp only [hexValue?] at known
  split at known
  · have same := Option.some.inj known
    omega
  split at known
  · have same := Option.some.inj known
    omega
  split at known
  · have same := Option.some.inj known
    omega
  · cases known

/-- No piece holds a control character. -/
theorem visible_of_mem_piece {piece : List Char} {unit : Nat} (first : IsPiece piece unit) :
    ∀ char ∈ piece, 32 ≤ char.toNat := by
  cases first with
  | letter known => simpa using visible_of_escapeTarget? known
  | @unit a b c d unit known =>
    obtain ⟨_, first, known⟩ := Option.bind_eq_some_iff.mp known
    obtain ⟨_, second, known⟩ := Option.bind_eq_some_iff.mp known
    obtain ⟨_, third, known⟩ := Option.bind_eq_some_iff.mp known
    obtain ⟨_, fourth, known⟩ := Option.bind_eq_some_iff.mp known
    simpa using ⟨(bounds_of_hexValue? first).1, (bounds_of_hexValue? second).1,
      (bounds_of_hexValue? third).1, (bounds_of_hexValue? fourth).1⟩
  | plain notQuote notBackslash visible => simpa using visible

theorem IsSpelling.visible {spelling : List Char} (spelled : IsSpelling spelling) :
    ∀ char ∈ spelling, 32 ≤ char.toNat := by
  obtain ⟨units, spelled⟩ := spelled
  induction spelled with
  | nil => simp
  | cons first others ih =>
    simp only [List.mem_append]
    rintro char (inside | inside)
    · exact visible_of_mem_piece first char inside
    · exact ih char inside

theorem isSpelling_of_plain {text : List Char}
    (plain : ∀ char ∈ text, char ≠ '"' ∧ char ≠ '\\' ∧ 32 ≤ char.toNat) : IsSpelling text := by
  induction text with
  | nil => exact ⟨[], Spells.nil⟩
  | cons char text ih =>
    obtain ⟨notQuote, notBackslash, visible⟩ := plain char List.mem_cons_self
    obtain ⟨units, others⟩ := ih fun char inside => plain char (List.mem_cons_of_mem _ inside)
    exact ⟨_, Spells.cons (IsPiece.plain notQuote notBackslash visible) others⟩

theorem isSpelling_decimal (value : Nat) : IsSpelling (decimal value) := by
  apply isSpelling_of_plain
  intro char inside
  have digit : char.isDigit := isDigit_of_mem_decimal value char inside
  have large : 48 ≤ char.toNat := le_toNat_of_isDigit digit
  refine ⟨?_, ?_, by omega⟩
  · rintro rfl
    cases digit
  · rintro rfl
    cases digit

theorem hexUnit?_control :
    ∀ point, point < 32 →
      hexUnit? '0' '0' (hexDigit (point / 16)) (hexDigit (point % 16)) = some point := by
  decide

theorem isPiece_escape (char : Char) : IsPiece (escape char) char.toNat := by
  unfold escape
  split
  · next same =>
      subst same
      exact IsPiece.letter rfl
  split
  · next same =>
      subst same
      exact IsPiece.letter rfl
  split
  · next same =>
      subst same
      exact IsPiece.letter rfl
  split
  · next same =>
      subst same
      exact IsPiece.letter rfl
  split
  · next same =>
      subst same
      exact IsPiece.letter rfl
  split
  · next same =>
      subst same
      exact IsPiece.letter rfl
  split
  · next same =>
      subst same
      exact IsPiece.letter rfl
  split
  · next control => exact IsPiece.unit (hexUnit?_control char.toNat control)
  · next notQuote notBackslash _ _ _ _ _ visible =>
      exact IsPiece.plain notQuote notBackslash (Nat.le_of_not_lt visible)

theorem spells_spell (text : List Char) : Spells (spell text) (text.map Char.toNat) := by
  induction text with
  | nil => exact Spells.nil
  | cons char text ih => exact Spells.cons (isPiece_escape char) ih

theorem isSpelling_spell (text : List Char) : IsSpelling (spell text) :=
  ⟨_, spells_spell text⟩

theorem isScalar_toNat (char : Char) :
    char.toNat < 0xD800 ∨ 0xE000 ≤ char.toNat ∧ char.toNat < 0x110000 := by
  have valid := char.valid
  simp only [UInt32.isValidChar, Nat.isValidChar] at valid
  simp only [Char.toNat]
  omega

/-- The code point of a character is never a surrogate. -/
theorem not_surrogate_toNat (char : Char) :
    isHighSurrogate char.toNat = false ∧ isLowSurrogate char.toNat = false := by
  have scalar := isScalar_toNat char
  simp only [isHighSurrogate, isLowSurrogate, Bool.and_eq_false_iff, decide_eq_false_iff_not]
  omega

theorem join?_point (char : Char) (rest : List Nat) :
    join? (char.toNat :: rest) = (join? rest).map (char :: ·) := by
  obtain ⟨notHigh, notLow⟩ := not_surrogate_toNat char
  cases rest with
  | nil => simp [join?, notHigh, notLow, Char.ofNat_toNat]
  | cons next rest => simp [join?, notHigh, notLow, Char.ofNat_toNat]

theorem join?_toNat (text : List Char) : join? (text.map Char.toNat) = some text := by
  induction text with
  | nil => rfl
  | cons char text ih => rw [List.map_cons, join?_point, ih, Option.map_some]

/-- Reading undoes writing, whatever characters the text holds. -/
theorem meaning?_spell (text : List Char) : meaning? (spell text) = some text := by
  rw [meaning?, units?_spells (spells_spell text), Option.bind_some, join?_toNat]

/-! Meanings -/

/-- The text of a row of code points, some of them as pairs of surrogates. -/
inductive Decodes : List Nat → List Char → Prop
  | nil : Decodes [] []
  | point (char : Char) {units : List Nat} {text : List Char} (others : Decodes units text) :
      Decodes (char.toNat :: units) (char :: text)
  | pair {high low : Nat} {char : Char} {units : List Nat} {text : List Char}
      (first : 0xD800 ≤ high ∧ high < 0xDC00) (second : 0xDC00 ≤ low ∧ low < 0xE000)
      (same : char.toNat = 0x10000 + 0x400 * (high - 0xD800) + (low - 0xDC00))
      (others : Decodes units text) : Decodes (high :: low :: units) (char :: text)

theorem join?_of_decodes {units : List Nat} {text : List Char} (decoded : Decodes units text) :
    join? units = some text := by
  induction decoded with
  | nil => rfl
  | point char _ ih => rw [join?_point, ih, Option.map_some]
  | @pair high low char units text first second same _ ih =>
    have isHigh : isHighSurrogate high = true := by simpa [isHighSurrogate] using first
    have isLow : isLowSurrogate low = true := by simpa [isLowSurrogate] using second
    rw [join?, if_pos isHigh, if_pos isLow, ih, ← same, Char.ofNat_toNat, Option.map_some]

theorem toNat_ofNat {point : Nat} (bound : point < 0x110000)
    (plain : ¬(0xD800 ≤ point ∧ point < 0xE000)) : (Char.ofNat point).toNat = point := by
  have valid : point.isValidChar := by
    simp only [Nat.isValidChar]
    omega
  rw [Char.ofNat, dif_pos valid]
  rfl

/-- A unit that is no surrogate stands for itself. -/
theorem decodes_ofNat {unit : Nat} {units : List Nat} {text : List Char} (bound : unit < 0x110000)
    (notHigh : ¬isHighSurrogate unit = true) (notLow : ¬isLowSurrogate unit = true)
    (others : Decodes units text) : Decodes (unit :: units) (Char.ofNat unit :: text) := by
  simp only [isHighSurrogate, isLowSurrogate, Bool.and_eq_true, decide_eq_true_eq] at notHigh notLow
  have known := toNat_ofNat bound (by omega)
  have decoded := Decodes.point (Char.ofNat unit) others
  rwa [known] at decoded

theorem decodes_of_join? {units : List Nat} {text : List Char}
    (bounds : ∀ unit ∈ units, unit < 0x110000) (joined : join? units = some text) :
    Decodes units text := by
  induction units using join?.induct generalizing text with
  | case1 =>
    obtain rfl := Option.some.inj joined
    exact Decodes.nil
  | case2 unit surrogate =>
    rw [join?, if_pos surrogate] at joined
    cases joined
  | case3 unit plain =>
    rw [join?, if_neg plain] at joined
    obtain rfl := Option.some.inj joined
    obtain ⟨notHigh, notLow⟩ := not_or.mp (Bool.or_eq_true _ _ ▸ plain)
    exact decodes_ofNat (bounds unit List.mem_cons_self) notHigh notLow Decodes.nil
  | case4 high low rest isHigh isLow ih =>
    rw [join?, if_pos isHigh, if_pos isLow] at joined
    obtain ⟨later, others, rfl⟩ := Option.map_eq_some_iff.mp joined
    have decoded := ih (List.forall_mem_cons.mp (List.forall_mem_cons.mp bounds).2).2 others
    simp only [isHighSurrogate, isLowSurrogate, Bool.and_eq_true, decide_eq_true_eq] at isHigh isLow
    exact Decodes.pair isHigh isLow (toNat_ofNat (by omega) (by omega)) decoded
  | case5 high next rest isHigh other =>
    rw [join?, if_pos isHigh, if_neg other] at joined
    cases joined
  | case6 low next rest notHigh isLow =>
    rw [join?, if_neg notHigh, if_pos isLow] at joined
    cases joined
  | case7 unit next rest notHigh notLow ih =>
    rw [join?, if_neg notHigh, if_neg notLow] at joined
    obtain ⟨later, others, rfl⟩ := Option.map_eq_some_iff.mp joined
    obtain ⟨bound, bounds⟩ := List.forall_mem_cons.mp bounds
    exact decodes_ofNat bound notHigh notLow (ih bounds others)

/-- What a piece spells is a code point or a surrogate. -/
theorem IsPiece.unit_lt {piece : List Char} {unit : Nat} (first : IsPiece piece unit) :
    unit < 0x110000 := by
  cases first with
  | @letter letter char known =>
    have scalar := isScalar_toNat char
    omega
  | @unit a b c d unit known =>
    obtain ⟨_, first, known⟩ := Option.bind_eq_some_iff.mp known
    obtain ⟨_, second, known⟩ := Option.bind_eq_some_iff.mp known
    obtain ⟨_, third, known⟩ := Option.bind_eq_some_iff.mp known
    obtain ⟨_, fourth, known⟩ := Option.bind_eq_some_iff.mp known
    obtain rfl := Option.some.inj known
    have high := bounds_of_hexValue? first
    have low := And.intro (bounds_of_hexValue? second) (bounds_of_hexValue? third)
    have last := bounds_of_hexValue? fourth
    omega
  | @plain char notQuote notBackslash visible =>
    have scalar := isScalar_toNat char
    omega

theorem Spells.unit_lt {spelling : List Char} {units : List Nat} (spelled : Spells spelling units) :
    ∀ unit ∈ units, unit < 0x110000 := by
  induction spelled with
  | nil => simp
  | cons first _ ih => exact List.forall_mem_cons.mpr ⟨first.unit_lt, ih⟩

/-- The spelling is one of the ways to write the text. -/
def Means (spelling text : List Char) : Prop :=
  ∃ units, Spells spelling units ∧ Decodes units text

theorem Means.isSpelling {spelling text : List Char} (means : Means spelling text) :
    IsSpelling spelling := by
  obtain ⟨units, spelled, _⟩ := means
  exact ⟨units, spelled⟩

theorem meaning?_eq_some_iff {spelling : List Char} (spelled : IsSpelling spelling)
    (text : List Char) : meaning? spelling = some text ↔ Means spelling text := by
  constructor
  · intro known
    obtain ⟨units, spelled⟩ := spelled
    rw [meaning?, units?_spells spelled, Option.bind_some] at known
    exact ⟨units, spelled, decodes_of_join? spelled.unit_lt known⟩
  · rintro ⟨units, spelled, decoded⟩
    rw [meaning?, units?_spells spelled, Option.bind_some, join?_of_decodes decoded]

theorem means_spell (text : List Char) : Means (spell text) text :=
  (meaning?_eq_some_iff (isSpelling_spell text) text).mp (meaning?_spell text)

end FlowAudit.Json.Quoted
