import FlowAudit.Proofs.Attempts
import FlowAudit.Proofs.Decimal.Literal
import FlowAudit.Trace.Line

set_option autoImplicit false

/-!
The grammar of lines with a TCP header. Each part of a line is found from the left, by the first place of
the mark that ends it; a line decodes just when all of its parts are there and well spelled
(`decode_accepts_grammar`).
-/
namespace FlowAudit.Trace

open FlowAudit.Text FlowAudit.Decimal

/-- The first character of the line tells what happened to the packet. -/
inductive HasDirection (line : List Char) : Direction → Prop where
  | send (mark : line.head? = some '-') : HasDirection line .send
  | receive (mark : line.head? = some 'r') : HasDirection line .receive
  | other (notSend : line.head? ≠ some '-') (notReceive : line.head? ≠ some 'r') :
      HasDirection line .other

/-- The text is the numeral of a port, with blanks around it. -/
def IsPort (text : List Char) (port : UInt16) : Prop :=
  ∃ left numeral right, AllBlank left ∧ AllBlank right ∧ text = left ++ numeral ++ right ∧
    IsNumeral numeral port.toNat

/-- The ack number of the text after the flags: the numeral from the first mark of an ack to the first
mark of a window after it. -/
inductive HasAck (tail : List Char) : Option UInt32 → Prop where
  | absent (unmarked : ¬" Ack=".toList <:+: tail) : HasAck tail none
  | present {before rest numeral after : List Char} {ack : UInt32}
      (mark : CutAtFirst " Ack=".toList tail before rest)
      (window : CutAtFirst " Win=".toList rest numeral after)
      (spells : IsNumeral numeral ack.toNat) : HasAck tail (some ack)

/-- The header, from behind its name. -/
inductive IsHeader (afterName : List Char) (decoded : Line) : Prop where
  | parts {blanks body segment afterOpen source destination tail : List Char}
      (blank : AllBlank blanks) (opening : afterName = blanks ++ '(' :: body)
      (flagsOpen : CutAtFirst " [".toList body segment afterOpen)
      (separator : CutAtFirst " > ".toList segment source destination)
      (sourcePort : IsPort source decoded.source)
      (destinationPort : IsPort destination decoded.destination)
      (flagsClose : afterOpen = decoded.flags.toList ++ ']' :: tail)
      (flags : ']' ∉ decoded.flags.toList) (ack : HasAck tail decoded.ack) :
      IsHeader afterName decoded

/-- The line has a TCP header and all that is decoded from it. -/
structure IsTcpLine (line : List Char) (decoded : Line) : Prop where
  direction : HasDirection line decoded.direction
  timestamp : IsSecondWord line decoded.timestamp.toList
  finite : SpellsFinite decoded.timestamp
  header : ∃ before afterName, CutAtFirst "ns3::TcpHeader".toList line before afterName ∧
    IsHeader afterName decoded

theorem IsTcpLine.isLiteral {line : List Char} {decoded : Line} (tcp : IsTcpLine line decoded) :
    IsLiteral decoded.timestamp.toList :=
  tcp.finite.isLiteral

namespace Line

theorem ofMark_eq_iff (line : List Char) (direction : Direction) :
    Direction.ofMark line.head? = direction ↔ HasDirection line direction := by
  constructor
  · rintro rfl
    unfold Direction.ofMark
    split
    · rename_i mark
      exact .send mark
    · rename_i mark
      exact .receive mark
    · rename_i notSend notReceive
      exact .other notSend notReceive
  · intro has
    cases has with
    | send mark => rw [mark]; rfl
    | receive mark => rw [mark]; rfl
    | other notSend notReceive =>
      unfold Direction.ofMark
      split
      · contradiction
      · contradiction
      · rfl

theorem readTimestamp_eq_ok_iff (line token : List Char) :
    readTimestamp line = .ok token ↔
      IsSecondWord line token ∧ SpellsFinite (String.ofList token) := by
  rw [← getElem?_words_one_iff, readTimestamp, SpellsFinite, String.toList_ofList]
  cases (words line)[1]? with
  | none => simp
  | some word =>
    simp only [Option.any_eq_true, Option.some.injEq]
    split
    · rename_i finite
      constructor
      · intro same
        obtain rfl := Except.ok.inj same
        exact ⟨rfl, finite⟩
      · rintro ⟨rfl, _⟩
        rfl
    · rename_i unusable
      simp only [reduceCtorEq, false_iff]
      rintro ⟨rfl, finite⟩
      exact unusable finite

theorem readOpen_eq_ok_iff (afterName body : List Char) :
    readOpen afterName = .ok body ↔ ∃ blanks, AllBlank blanks ∧ afterName = blanks ++ '(' :: body := by
  rw [← trimStart_eq_cons_iff (by decide), readOpen]
  split
  · rename_i inside shape
    rw [shape, Except.ok.injEq, List.cons.injEq, and_iff_right rfl]
  · rename_i other
    simp only [reduceCtorEq, false_iff]
    exact other body

theorem cutFlags_eq_ok_iff (mark text before after : List Char) :
    cutFlags mark text = .ok (before, after) ↔ CutAtFirst mark text before after := by
  rw [← cut_eq_some_iff, cutFlags]
  cases cut mark text <;> simp

theorem readPort_eq_ok_iff (text : List Char) (port : UInt16) :
    readPort text = .ok port ↔ IsPort text port := by
  have read : readPort text = .ok port ↔ uint16? (trim text) = some port := by
    rw [readPort]
    cases uint16? (trim text) <;> simp
  rw [read, uint16?_eq_some_iff, IsPort]
  constructor
  · intro numeral
    obtain ⟨left, right, before, after, whole⟩ := (trim_eq_iff numeral.visible text).mp rfl
    exact ⟨left, trim text, right, before, after, whole, numeral⟩
  · rintro ⟨left, numeral, right, before, after, whole, spells⟩
    rw [(trim_eq_iff spells.visible text).mpr ⟨left, right, before, after, whole⟩]
    exact spells

theorem readPorts_eq_ok_iff (segment : List Char) (source destination : UInt16) :
    readPorts segment = .ok (source, destination) ↔
      ∃ left right, CutAtFirst " > ".toList segment left right ∧ IsPort left source ∧
        IsPort right destination := by
  simp only [← cut_eq_some_iff, ← readPort_eq_ok_iff]
  change readPorts segment = _ ↔ ∃ left right, cut portSeparator segment = some (left, right) ∧ _
  rw [readPorts]
  cases cut portSeparator segment with
  | none => simp [throw, throwThe, MonadExceptOf.throw]
  | some parts =>
    obtain ⟨left, right⟩ := parts
    simp [bind_eq_ok_iff, pure, Except.pure]

theorem readAck_eq_ok_iff (tail : List Char) (ack : Option UInt32) :
    readAck tail = .ok ack ↔ HasAck tail ack := by
  constructor
  · intro success
    unfold readAck at success
    split at success
    · rename_i unmarked
      obtain rfl := Except.ok.inj success
      exact .absent ((cut_eq_none_iff _ _).mp unmarked)
    · rename_i before rest mark
      split at success
      · cases success
      · rename_i numeral after window
        split at success
        · rename_i number spells
          obtain rfl := Except.ok.inj success
          exact .present ((cut_eq_some_iff _ _ _ _).mp mark) ((cut_eq_some_iff _ _ _ _).mp window)
            ((uint32?_eq_some_iff _ _).mp spells)
        · cases success
  · intro has
    unfold readAck
    cases has with
    | absent unmarked =>
      have nowhere : cut ackMark tail = none := (cut_eq_none_iff _ _).mpr unmarked
      rw [nowhere]
    | present mark window spells =>
      have found : cut ackMark tail = some _ := (cut_eq_some_iff _ _ _ _).mpr mark
      have ended : cut windowMark _ = some _ := (cut_eq_some_iff _ _ _ _).mpr window
      simp only [found, ended, (uint32?_eq_some_iff _ _).mpr spells]

theorem decodeHeader_eq_ok_iff (line afterName : List Char) (decoded : Line) :
    decodeHeader line afterName = .ok decoded ↔
      Direction.ofMark line.head? = decoded.direction ∧
        readTimestamp line = .ok decoded.timestamp.toList ∧
        ∃ body segment afterOpen tail, readOpen afterName = .ok body ∧
          cutFlags flagsOpen body = .ok (segment, afterOpen) ∧
          readPorts segment = .ok (decoded.source, decoded.destination) ∧
          cutFlags flagsClose afterOpen = .ok (decoded.flags.toList, tail) ∧
          readAck tail = .ok decoded.ack := by
  simp only [decodeHeader, bind_eq_ok_iff, pure, Except.pure, Except.ok.injEq]
  constructor
  · rintro ⟨token, time, body, opening, ⟨segment, afterOpen⟩, opens, ⟨source, destination⟩, ports,
      ⟨flags, tail⟩, closes, ack, number, rfl⟩
    simp only [String.toList_ofList, true_and]
    exact ⟨time, body, segment, afterOpen, tail, opening, opens, ports, closes, number⟩
  · rintro ⟨direction, time, body, segment, afterOpen, tail, opening, opens, ports, closes, number⟩
    refine ⟨_, time, body, opening, _, opens, _, ports, _, closes, _, number, ?_⟩
    rw [direction, String.ofList_toList, String.ofList_toList]

theorem isHeader_iff (afterName : List Char) (decoded : Line) :
    (∃ body segment afterOpen tail, readOpen afterName = .ok body ∧
        cutFlags flagsOpen body = .ok (segment, afterOpen) ∧
        readPorts segment = .ok (decoded.source, decoded.destination) ∧
        cutFlags flagsClose afterOpen = .ok (decoded.flags.toList, tail) ∧
        readAck tail = .ok decoded.ack) ↔ IsHeader afterName decoded := by
  simp only [readOpen_eq_ok_iff, cutFlags_eq_ok_iff, readPorts_eq_ok_iff, readAck_eq_ok_iff]
  constructor
  · rintro ⟨body, segment, afterOpen, tail, ⟨blanks, blank, opening⟩, opens,
      ⟨source, destination, separator, sourcePort, destinationPort⟩, closes, ack⟩
    obtain ⟨flagsClose, flags⟩ := (cutAtFirst_single_iff _ _ _ _).mp closes
    exact .parts blank opening opens separator sourcePort destinationPort flagsClose flags ack
  · rintro ⟨blank, opening, opens, separator, sourcePort, destinationPort, flagsClose, flags, ack⟩
    refine ⟨_, _, _, _, ⟨_, blank, opening⟩, opens, ⟨_, _, separator, sourcePort, destinationPort⟩,
      (cutAtFirst_single_iff _ _ _ _).mpr ⟨flagsClose, flags⟩, ack⟩

theorem decode_eq_none_iff (line : List Char) :
    decode line = .ok none ↔ ¬"ns3::TcpHeader".toList <:+: line := by
  rw [← cut_eq_none_iff, decode]
  change _ ↔ cut headerName line = none
  cases cut headerName line with
  | none => simp
  | some parts => simp [map_eq_ok_iff]

theorem decode_eq_some_iff (line : List Char) (decoded : Line) :
    decode line = .ok (some decoded) ↔ IsTcpLine line decoded := by
  have named : ∀ before afterName, cut headerName line = some (before, afterName) ↔
      CutAtFirst "ns3::TcpHeader".toList line before afterName := cut_eq_some_iff _ _
  have read : decode line = .ok (some decoded) ↔ ∃ before afterName,
      cut headerName line = some (before, afterName) ∧ decodeHeader line afterName = .ok decoded := by
    rw [decode]
    cases cut headerName line with
    | none => simp
    | some parts =>
      obtain ⟨before, afterName⟩ := parts
      simp [map_eq_ok_iff]
  simp only [read, named, decodeHeader_eq_ok_iff, isHeader_iff, ofMark_eq_iff, readTimestamp_eq_ok_iff,
    String.ofList_toList]
  constructor
  · rintro ⟨before, afterName, name, direction, ⟨timestamp, finite⟩, header⟩
    exact ⟨direction, timestamp, finite, before, afterName, name, header⟩
  · rintro ⟨direction, timestamp, finite, before, afterName, name, header⟩
    exact ⟨before, afterName, name, direction, ⟨timestamp, finite⟩, header⟩

/-- A line without the name of a TCP header has nothing to decode, and a line decodes just when it is one
of the grammar. -/
theorem decode_accepts_grammar (line : List Char) :
    (decode line = .ok none ↔ ¬"ns3::TcpHeader".toList <:+: line) ∧
      ∀ decoded, decode line = .ok (some decoded) ↔ IsTcpLine line decoded :=
  ⟨decode_eq_none_iff line, decode_eq_some_iff line⟩

end Line

end FlowAudit.Trace
