import FlowAudit.Proofs.Text
import Mathlib.Data.List.DropRight

set_option autoImplicit false

/-!
What a reader finds in a text, said of the text alone: the first place of a mark (`cut_eq_some_iff`), the
words that blanks part (`getElem?_words_one_iff`), what is left between blanks (`trim_eq_iff`), and the
number of a numeral (`natural?_eq_some_iff`).
-/
namespace FlowAudit.Text

def AllBlank (text : List Char) : Prop :=
  ∀ char ∈ text, isBlank char = true

def AllVisible (text : List Char) : Prop :=
  ∀ char ∈ text, isBlank char = false

/-! Marks -/

/-- The text is parted by the mark, which does not stand any further left. -/
structure CutAtFirst (mark text before after : List Char) : Prop where
  whole : text = before ++ mark ++ after
  first : ∀ earlier, earlier ++ mark <+: text → before.length ≤ earlier.length

theorem CutAtFirst.unique {mark text before before' after after' : List Char}
    (one : CutAtFirst mark text before after) (other : CutAtFirst mark text before' after') :
    before = before' ∧ after = after' := by
  have same : before ++ mark ++ after = before' ++ mark ++ after' := one.whole.symm.trans other.whole
  have notLater := one.first before' ⟨after', other.whole.symm⟩
  have notEarlier := other.first before ⟨after, one.whole.symm⟩
  rw [List.append_assoc, List.append_assoc] at same
  obtain ⟨left, right⟩ := List.append_inj same (Nat.le_antisymm notLater notEarlier)
  exact ⟨left, List.append_cancel_left right⟩

theorem length_le_of_cut {mark text before after : List Char}
    (found : cut mark text = some (before, after)) :
    ∀ earlier, earlier ++ mark <+: text → before.length ≤ earlier.length := by
  induction text generalizing before with
  | nil =>
    intro earlier _
    have empty := cut_eq_some found
    rw [List.append_assoc] at empty
    rw [(List.append_eq_nil_iff.mp empty.symm).1]
    exact Nat.zero_le _
  | cons char rest ih =>
    intro earlier inside
    rw [cut] at found
    split at found
    · obtain ⟨rfl, rfl⟩ := Prod.mk.inj (Option.some.inj found)
      exact Nat.zero_le _
    · rename_i elsewhere
      obtain ⟨⟨left, right⟩, deeper, equal⟩ := Option.map_eq_some_iff.mp found
      obtain ⟨rfl, rfl⟩ := Prod.mk.inj equal
      cases earlier with
      | nil => exact absurd (List.isPrefixOf_iff_prefix.mpr inside) elsewhere
      | cons head earlier =>
        have tails : earlier ++ mark <+: rest := (List.cons_prefix_cons.mp inside).2
        exact Nat.succ_le_succ (ih deeper earlier tails)

/-- A cut is made at the first place of the mark. -/
theorem cut_eq_some_iff (mark text before after : List Char) :
    cut mark text = some (before, after) ↔ CutAtFirst mark text before after := by
  constructor
  · intro found
    exact ⟨cut_eq_some found, length_le_of_cut found⟩
  · intro parted
    have occurs : (cut mark text).isSome = true :=
      (occurs_iff_isInfix mark text).mpr ⟨before, after, parted.whole.symm⟩
    obtain ⟨⟨left, right⟩, found⟩ := Option.isSome_iff_exists.mp occurs
    obtain ⟨rfl, rfl⟩ := parted.unique ⟨cut_eq_some found, length_le_of_cut found⟩
    exact found

theorem cut_eq_none_iff (mark text : List Char) : cut mark text = none ↔ ¬mark <:+: text := by
  rw [← occurs_iff_isInfix, occurs, Bool.not_eq_true, Option.isSome_eq_false_iff, Option.isNone_iff_eq_none]

/-- A mark of one character is first found after a part that does not hold it. -/
theorem cutAtFirst_single_iff (mark : Char) (text before after : List Char) :
    CutAtFirst [mark] text before after ↔ text = before ++ mark :: after ∧ mark ∉ before := by
  constructor
  · intro parted
    refine ⟨by simpa using parted.whole, ?_⟩
    intro inside
    obtain ⟨left, right, rfl⟩ := List.append_of_mem inside
    have sooner := parted.first left ⟨right ++ mark :: after, by simp [parted.whole]⟩
    simp only [List.length_append, List.length_cons] at sooner
    omega
  · rintro ⟨rfl, absent⟩
    rw [← cut_eq_some_iff]
    exact cut_append absent after

/-! Words -/

/-- The text begins with the word, after blanks, and the rest goes on with a blank if at all. -/
structure BeginsWithWord (text word rest : List Char) : Prop where
  whole : ∃ lead, AllBlank lead ∧ text = lead ++ word ++ rest
  nonempty : word ≠ []
  visible : AllVisible word
  ends : ∀ char ∈ rest.head?, isBlank char = true

/-- The word stands second among those that blanks part in the text. -/
def IsSecondWord (text word : List Char) : Prop :=
  ∃ first rest after, BeginsWithWord text first rest ∧ BeginsWithWord rest word after

theorem words_append_cons {char : Char} (blank : isBlank char = true) (before after : List Char) :
    words (before ++ char :: after) = words before ++ words after := by
  rw [words, List.splitOnP_append_cons before after blank, List.filter_append]
  rfl

theorem words_cons {char : Char} (blank : isBlank char = true) (text : List Char) :
    words (char :: text) = words text :=
  words_append_cons blank [] text

theorem words_append_of_blank {lead : List Char} (blank : AllBlank lead) (text : List Char) :
    words (lead ++ text) = words text := by
  induction lead with
  | nil => rfl
  | cons char lead ih =>
    obtain ⟨first, others⟩ := List.forall_mem_cons.mp blank
    rw [List.cons_append, words_cons first, ih others]

theorem words_of_visible {word : List Char} (nonempty : word ≠ []) (visible : AllVisible word) :
    words word = [word] := by
  rw [words, List.splitOnP_eq_singleton visible]
  simp [nonempty]

theorem BeginsWithWord.words_eq {text word rest : List Char} (begins : BeginsWithWord text word rest) :
    words text = word :: words rest := by
  obtain ⟨lead, blank, rfl⟩ := begins.whole
  rw [List.append_assoc, words_append_of_blank blank]
  have one := words_of_visible begins.nonempty begins.visible
  cases rest with
  | nil => rw [List.append_nil, one]; rfl
  | cons char rest =>
    have gap := begins.ends char rfl
    rw [words_append_cons gap, words_cons gap, one]
    rfl

theorem exists_beginsWithWord {text : List Char} (some : words text ≠ []) :
    ∃ word rest, BeginsWithWord text word rest := by
  induction text with
  | nil => exact absurd rfl some
  | cons char text ih =>
    cases blank : isBlank char with
    | true =>
      rw [words_cons blank] at some
      obtain ⟨word, rest, begins⟩ := ih some
      obtain ⟨lead, leads, whole⟩ := begins.whole
      have longer : AllBlank (char :: lead) := List.forall_mem_cons.mpr ⟨blank, leads⟩
      refine ⟨word, rest, ⟨char :: lead, longer, ?_⟩, begins.nonempty, begins.visible, begins.ends⟩
      rw [whole, List.cons_append, List.cons_append]
    | false =>
      let visible := fun char => !isBlank char
      refine ⟨char :: text.takeWhile visible, text.dropWhile visible, ⟨[], List.forall_mem_nil _, ?_⟩,
        List.cons_ne_nil _ _, List.forall_mem_cons.mpr ⟨blank, ?_⟩, ?_⟩
      · rw [List.nil_append, List.cons_append, List.takeWhile_append_dropWhile]
      · intro other inside
        simpa [visible] using List.mem_takeWhile_imp inside
      · intro next heads
        rw [← List.find?_not_eq_head?_dropWhile] at heads
        simpa [visible] using List.find?_some heads

theorem words_eq_cons_iff (text word : List Char) (others : List (List Char)) :
    words text = word :: others ↔ ∃ rest, BeginsWithWord text word rest ∧ words rest = others := by
  constructor
  · intro same
    obtain ⟨found, rest, begins⟩ := exists_beginsWithWord (same ▸ List.cons_ne_nil word others)
    obtain ⟨rfl, rfl⟩ := List.cons.inj (begins.words_eq.symm.trans same)
    exact ⟨rest, begins, rfl⟩
  · rintro ⟨rest, begins, rfl⟩
    exact begins.words_eq

theorem getElem?_words_one_iff (text word : List Char) :
    (words text)[1]? = some word ↔ IsSecondWord text word := by
  constructor
  · intro found
    obtain ⟨first, second, others, shape⟩ : ∃ first second others,
        words text = first :: second :: others := by
      match shape : words text with
      | [] | [_] => simp [shape] at found
      | first :: second :: others => exact ⟨first, second, others, rfl⟩
    obtain ⟨rest, begins, later⟩ := (words_eq_cons_iff _ _ _).mp shape
    obtain ⟨after, goesOn, _⟩ := (words_eq_cons_iff _ _ _).mp later
    obtain rfl : second = word := by simpa [shape] using found
    exact ⟨first, rest, after, begins, goesOn⟩
  · rintro ⟨first, rest, after, begins, goesOn⟩
    rw [begins.words_eq, goesOn.words_eq]
    rfl

/-! Blanks around a text -/

theorem trimStart_append {lead : List Char} (blank : AllBlank lead) (text : List Char) :
    trimStart (lead ++ text) = trimStart text :=
  List.dropWhile_append_of_pos blank

/-- A text that begins with no blank is what is left of it after blanks. -/
theorem trimStart_eq_cons_iff {char : Char} (visible : isBlank char = false) (text rest : List Char) :
    trimStart text = char :: rest ↔ ∃ lead, AllBlank lead ∧ text = lead ++ char :: rest := by
  constructor
  · intro same
    refine ⟨text.takeWhile isBlank, fun _ inside => List.mem_takeWhile_imp inside, ?_⟩
    rw [← same]
    exact List.takeWhile_append_dropWhile.symm
  · rintro ⟨lead, blank, rfl⟩
    rw [trimStart_append blank]
    exact List.dropWhile_cons_of_neg (by rw [visible]; decide)

/-- What ends in a character that is not dropped stays whole. -/
theorem rdropWhile_append {dropped : Char → Bool} {front : List Char}
    (kept : ∀ char ∈ front.getLast?, dropped char = false) (back : List Char) :
    (front ++ back).rdropWhile dropped = front ++ back.rdropWhile dropped := by
  induction back using List.reverseRecOn with
  | nil =>
    rw [List.append_nil, List.rdropWhile_nil, List.append_nil, List.rdropWhile_eq_self_iff]
    intro filled
    simpa using kept _ (List.getLast_mem_getLast? filled)
  | append_singleton back char ih =>
    rw [← List.append_assoc, List.rdropWhile_concat, List.rdropWhile_concat]
    split
    · exact ih
    · exact List.append_assoc front back [char]

/-- The core stands between blanks, and neither begins nor ends with one. -/
structure IsTrimmed (text core : List Char) : Prop where
  whole : ∃ left right, AllBlank left ∧ AllBlank right ∧ text = left ++ core ++ right
  begins : ∀ char ∈ core.head?, isBlank char = false
  ends : ∀ char ∈ core.getLast?, isBlank char = false

theorem isTrimmed_trim (text : List Char) : IsTrimmed text (trim text) where
  whole := by
    refine ⟨text.takeWhile isBlank, (trimStart text).rtakeWhile isBlank,
      fun _ inside => List.mem_takeWhile_imp inside, fun _ inside => List.mem_rtakeWhile_imp inside, ?_⟩
    have ended : trim text ++ (trimStart text).rtakeWhile isBlank = trimStart text :=
      List.rdropWhile_append_rtakeWhile
    rw [List.append_assoc, ended]
    exact List.takeWhile_append_dropWhile.symm
  begins := by
    intro char heads
    have begins : [char] <+: trim text := List.singleton_prefix_iff_head?_eq_some.mpr heads
    have start : (text.dropWhile isBlank).head? = some char :=
      List.singleton_prefix_iff_head?_eq_some.mp (begins.trans (List.rdropWhile_prefix isBlank _))
    have visible := List.head?_dropWhile_not isBlank text
    rwa [start] at visible
  ends := by
    intro char last
    change ((trimStart text).rdropWhile isBlank).getLast? = some char at last
    have filled : (trimStart text).rdropWhile isBlank ≠ [] := by
      intro nothing
      rw [nothing] at last
      cases last
    rw [List.getLast?_eq_some_getLast filled] at last
    obtain rfl := Option.some.inj last
    have visible := List.rdropWhile_last_not isBlank (trimStart text) filled
    rwa [Bool.not_eq_true] at visible

/-- Trimming leaves the one core of a text. -/
theorem trim_eq_iff_isTrimmed (text core : List Char) : trim text = core ↔ IsTrimmed text core := by
  constructor
  · rintro rfl
    exact isTrimmed_trim text
  · rintro ⟨⟨left, right, before, after, rfl⟩, begins, ends⟩
    cases core with
    | nil =>
      rw [List.append_nil, trim_eq_nil_iff]
      exact List.forall_mem_append.mpr ⟨before, after⟩
    | cons char core =>
      have started : trimStart (left ++ (char :: core) ++ right) = (char :: core) ++ right :=
        (trimStart_eq_cons_iff (begins char rfl) _ _).mpr ⟨left, before, List.append_assoc _ _ _⟩
      have nothing : right.rdropWhile isBlank = [] := List.rdropWhile_eq_nil_iff.mpr after
      have ended : trimEnd ((char :: core) ++ right) = char :: core := by
        change ((char :: core) ++ right).rdropWhile isBlank = char :: core
        rw [rdropWhile_append ends, nothing, List.append_nil]
      rw [trim, started, ended]

theorem trim_eq_iff {core : List Char} (visible : AllVisible core) (text : List Char) :
    trim text = core ↔ ∃ left right, AllBlank left ∧ AllBlank right ∧ text = left ++ core ++ right := by
  rw [trim_eq_iff_isTrimmed]
  constructor
  · intro trimmed
    exact trimmed.whole
  · intro whole
    exact ⟨whole, fun char heads => visible char (List.mem_of_mem_head? heads),
      fun char last => visible char (List.mem_of_mem_getLast? last)⟩

/-! Numerals -/

/-- Digits, after a plus sign at most, that denote the number. -/
def IsNumeral (text : List Char) (value : Nat) : Prop :=
  ∃ sign digits, text = sign ++ digits ∧ (sign = [] ∨ sign = ['+']) ∧ digits ≠ [] ∧
    (∀ digit ∈ digits, digit.isDigit = true) ∧ digitsValue digits = value

theorem isDigits_iff (text : List Char) :
    isDigits text = true ↔ text ≠ [] ∧ ∀ digit ∈ text, digit.isDigit = true := by
  simp [isDigits]

theorem dropPlus_of_digits {digits : List Char} (all : ∀ digit ∈ digits, digit.isDigit = true) :
    dropPlus digits = digits := by
  unfold dropPlus
  split
  · exact absurd (all '+' List.mem_cons_self) (by decide)
  · rfl

theorem exists_dropPlus_eq (text : List Char) :
    ∃ sign, (sign = [] ∨ sign = ['+']) ∧ text = sign ++ dropPlus text := by
  unfold dropPlus
  split
  · exact ⟨['+'], Or.inr rfl, rfl⟩
  · exact ⟨[], Or.inl rfl, rfl⟩

theorem natural?_eq_some_iff (text : List Char) (value : Nat) :
    natural? text = some value ↔ IsNumeral text value := by
  rw [natural?, Option.ite_none_right_eq_some, isDigits_iff, Option.some.injEq, and_assoc]
  constructor
  · rintro ⟨nonempty, all, number⟩
    obtain ⟨sign, plus, whole⟩ := exists_dropPlus_eq text
    exact ⟨sign, dropPlus text, whole, plus, nonempty, all, number⟩
  · rintro ⟨sign, digits, rfl, rfl | rfl, nonempty, all, number⟩
    · rw [List.nil_append, dropPlus_of_digits all]
      exact ⟨nonempty, all, number⟩
    · exact ⟨nonempty, all, number⟩

theorem uint16?_eq_some_iff (text : List Char) (port : UInt16) :
    uint16? text = some port ↔ IsNumeral text port.toNat := by
  simp only [uint16?, Option.bind_eq_some_iff, natural?_eq_some_iff, Option.dite_none_right_eq_some,
    Option.some.injEq]
  constructor
  · rintro ⟨value, numeral, bound, rfl⟩
    exact numeral
  · intro numeral
    exact ⟨port.toNat, numeral, port.toNat_lt_size, UInt16.ofNatLT_toNat port⟩

theorem uint32?_eq_some_iff (text : List Char) (number : UInt32) :
    uint32? text = some number ↔ IsNumeral text number.toNat := by
  simp only [uint32?, Option.bind_eq_some_iff, natural?_eq_some_iff, Option.dite_none_right_eq_some,
    Option.some.injEq]
  constructor
  · rintro ⟨value, numeral, bound, rfl⟩
    exact numeral
  · intro numeral
    exact ⟨number.toNat, numeral, number.toNat_lt_size, UInt32.ofNatLT_toNat number⟩

theorem toNat_le_of_isDigit {char : Char} (digit : char.isDigit = true) : char.toNat ≤ 57 := by
  simp only [Char.isDigit, Bool.and_eq_true, decide_eq_true_eq, UInt32.le_iff_toNat_le] at digit
  exact digit.2

theorem isBlank_of_isDigit {char : Char} (digit : char.isDigit = true) : isBlank char = false := by
  have low := le_toNat_of_isDigit digit
  have high := toNat_le_of_isDigit digit
  simp only [isBlank, Bool.or_eq_false_iff, Bool.and_eq_false_iff, decide_eq_false_iff_not,
    beq_eq_false_iff_ne]
  omega

theorem isNumeral_decimal (value : Nat) : IsNumeral (decimal value) value :=
  (natural?_eq_some_iff _ _).mp (natural?_decimal value)

/-- Neither a sign nor leading zeros; the numeral of zero is a zero. -/
def IsCanonical (text : List Char) : Prop :=
  text.head? ≠ some '+' ∧ (text.head? = some '0' → text = ['0'])

theorem digitValue_lt {digit : Char} (isDigit : digit.isDigit = true) : digitValue digit < 10 := by
  have low := le_toNat_of_isDigit isDigit
  have high := toNat_le_of_isDigit isDigit
  have zero : '0'.toNat = 48 := rfl
  rw [digitValue, zero]
  omega

theorem digitChar_digitValue {digit : Char} (isDigit : digit.isDigit = true) :
    digitChar (digitValue digit) = digit := by
  have low := le_toNat_of_isDigit isDigit
  have zero : '0'.toNat = 48 := rfl
  rw [digitChar, digitValue, zero, Nat.add_sub_cancel' low, Char.ofNat_toNat]

/-- A row of digits that does not begin with an idle zero is the numeral of its value. -/
theorem decimal_digitsValue {digits : List Char} (nonempty : digits ≠ [])
    (all : ∀ digit ∈ digits, digit.isDigit = true)
    (leads : digits.head? = some '0' → digits = ['0']) : decimal (digitsValue digits) = digits := by
  induction digits using List.reverseRecOn with
  | nil => exact absurd rfl nonempty
  | append_singleton front last ih =>
    have lastDigit : last.isDigit = true := all last (by simp)
    have small := digitValue_lt lastDigit
    rw [digitsValue_append_single]
    by_cases single : front = []
    · subst single
      have value : 10 * digitsValue [] + digitValue last = digitValue last := by simp [digitsValue]
      rw [value, decimal, if_pos small, digitChar_digitValue lastDigit, List.nil_append]
    · -- A row of two digits or more begins with a digit that counts.
      have nonzero : front.head? ≠ some '0' := by
        intro zero
        have whole := leads (by rw [List.head?_append_of_ne_nil _ single, zero])
        rw [List.append_eq_singleton_iff] at whole
        simp [single] at whole
      have begun : decimal (digitsValue front) = front :=
        ih single (fun digit inside => all digit (List.mem_append_left _ inside))
          fun zero => absurd zero nonzero
      have positive : digitsValue front ≠ 0 := by
        intro zero
        rw [zero, decimal, if_pos (by decide)] at begun
        exact nonzero (begun ▸ rfl)
      have quotient : (10 * digitsValue front + digitValue last) / 10 = digitsValue front := by omega
      have remainder : (10 * digitsValue front + digitValue last) % 10 = digitValue last := by omega
      rw [decimal, if_neg (by omega), quotient, remainder, begun, digitChar_digitValue lastDigit]

/-- Only the numeral of zero begins with a zero. -/
theorem decimal_eq_zero_of_head? {value : Nat} (zero : (decimal value).head? = some '0') :
    decimal value = ['0'] := by
  induction value using decimal.induct with
  | case1 value small =>
    rw [decimal, if_pos small] at zero ⊢
    rw [Option.some.inj zero]
  | case2 value large ih =>
    rw [decimal, if_neg large, List.head?_append_of_ne_nil _ (decimal_ne_nil _)] at zero
    have nothing := digitsValue_decimal (value / 10)
    rw [ih zero] at nothing
    have front : digitsValue ['0'] = 0 := rfl
    omega

theorem isCanonical_decimal (value : Nat) : IsCanonical (decimal value) := by
  refine ⟨?_, decimal_eq_zero_of_head?⟩
  intro plus
  have digit := isDigit_of_mem_decimal value '+' (List.mem_of_mem_head? plus)
  exact absurd digit (by decide)

/-- Of the numerals of a number one is canonical, the one that is written. -/
theorem isNumeral_and_isCanonical_iff (text : List Char) (value : Nat) :
    IsNumeral text value ∧ IsCanonical text ↔ text = decimal value := by
  constructor
  · rintro ⟨⟨sign, digits, rfl, rfl | rfl, nonempty, all, rfl⟩, unsigned, leads⟩
    · exact (decimal_digitsValue nonempty all leads).symm
    · exact absurd rfl unsigned
  · rintro rfl
    exact ⟨isNumeral_decimal value, isCanonical_decimal value⟩

theorem IsNumeral.plus_or_isDigit {text : List Char} {value : Nat} (numeral : IsNumeral text value) :
    ∀ char ∈ text, char = '+' ∨ char.isDigit = true := by
  obtain ⟨sign, digits, rfl, plus, _, all, _⟩ := numeral
  intro char inside
  rcases List.mem_append.mp inside with inside | inside
  · rcases plus with rfl | rfl
    · cases inside
    · exact Or.inl (List.mem_singleton.mp inside)
  · exact Or.inr (all char inside)

theorem IsNumeral.not_mem {text : List Char} {value : Nat} (numeral : IsNumeral text value)
    {char : Char} (notPlus : char ≠ '+') (other : char.isDigit = false) : char ∉ text := by
  intro inside
  rcases numeral.plus_or_isDigit char inside with same | digit
  · exact notPlus same
  · rw [other] at digit
    cases digit

theorem IsNumeral.visible {text : List Char} {value : Nat} (numeral : IsNumeral text value) :
    AllVisible text := by
  intro char inside
  rcases numeral.plus_or_isDigit char inside with rfl | digit
  · rfl
  · exact isBlank_of_isDigit digit

end FlowAudit.Text
