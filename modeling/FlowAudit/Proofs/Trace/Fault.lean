import FlowAudit.Proofs.Trace.Line
import Mathlib.Data.List.Infix

set_option autoImplicit false

/-!
Faults of lines with a TCP header. The parts of a line are looked for in a fixed order: the time, the
parenthesis, the flags, the ports, the end of the flags, the window and the ack number. A line that does
not decode is refused for the first part that is missing or misspelled (`decode_reports_first_fault`).
-/
namespace FlowAudit.Trace

open FlowAudit.Text FlowAudit.Decimal

/-- The second word of the line is absent or spells no finite double. -/
inductive TimestampFault (line : List Char) : DecodeError → Prop where
  | missing (absent : ∀ word, ¬IsSecondWord line word) : TimestampFault line .missingTimestamp
  | bad {token : List Char} (second : IsSecondWord line token)
      (unusable : ¬SpellsFinite (String.ofList token)) :
      TimestampFault line (.badTimestamp (String.ofList token))

theorem TimestampFault.of_not_isLiteral {line token : List Char} (second : IsSecondWord line token)
    (misspelled : ¬IsLiteral token) : TimestampFault line (.badTimestamp (String.ofList token)) := by
  refine .bad second ?_
  intro finite
  rw [← String.toList_ofList (l := token)] at misspelled
  exact misspelled finite.isLiteral

/-- What is left of the text between blanks is no numeral of a port. -/
inductive PortFault (text : List Char) : DecodeError → Prop where
  | bad {core : List Char} (trimmed : IsTrimmed text core)
      (misspelled : ∀ port : UInt16, ¬IsNumeral core port.toNat) :
      PortFault text (.badPort (String.ofList core))

/-- The text before the flags does not spell two ports. The source is looked at first. -/
inductive PortsFault (segment : List Char) : DecodeError → Prop where
  | unparted (absent : ¬" > ".toList <:+: segment) : PortsFault segment .missingPortSeparator
  | source {source destination : List Char} {cause : DecodeError}
      (separator : CutAtFirst " > ".toList segment source destination)
      (fault : PortFault source cause) : PortsFault segment cause
  | destination {source destination : List Char} {port : UInt16} {cause : DecodeError}
      (separator : CutAtFirst " > ".toList segment source destination)
      (sourcePort : IsPort source port) (fault : PortFault destination cause) :
      PortsFault segment cause

/-- The text after the flags has the mark of an ack, but no window after it or no numeral between. -/
inductive AckFault (tail : List Char) : DecodeError → Prop where
  | endless {before rest : List Char} (mark : CutAtFirst " Ack=".toList tail before rest)
      (absent : ¬" Win=".toList <:+: rest) : AckFault tail .missingWindow
  | bad {before rest text after : List Char} (mark : CutAtFirst " Ack=".toList tail before rest)
      (window : CutAtFirst " Win=".toList rest text after)
      (misspelled : ∀ ack : UInt32, ¬IsNumeral text ack.toNat) :
      AckFault tail (.badAck (String.ofList text))

/-- The text behind the name of a header begins with a parenthesis, after blanks. -/
def OpensBody (afterName body : List Char) : Prop :=
  ∃ blanks, AllBlank blanks ∧ afterName = blanks ++ '(' :: body

/-- The text before the flags spells two ports. -/
def HasPorts (segment : List Char) (source destination : UInt16) : Prop :=
  ∃ left right, CutAtFirst " > ".toList segment left right ∧ IsPort left source ∧
    IsPort right destination

/-- The first part of the header that is missing or misspelled, from behind its name. -/
inductive HeaderFault (afterName : List Char) : DecodeError → Prop where
  | unopened (absent : ∀ body, ¬OpensBody afterName body) : HeaderFault afterName .missingHeaderOpen
  | flagless {body : List Char} (opening : OpensBody afterName body)
      (absent : ¬" [".toList <:+: body) : HeaderFault afterName .missingFlags
  | ports {body segment afterOpen : List Char} {cause : DecodeError}
      (opening : OpensBody afterName body) (flagsOpen : CutAtFirst " [".toList body segment afterOpen)
      (fault : PortsFault segment cause) : HeaderFault afterName cause
  | unclosed {body segment afterOpen : List Char} {source destination : UInt16}
      (opening : OpensBody afterName body) (flagsOpen : CutAtFirst " [".toList body segment afterOpen)
      (ports : HasPorts segment source destination) (absent : ']' ∉ afterOpen) :
      HeaderFault afterName .missingFlags
  | ack {body segment afterOpen flags tail : List Char} {source destination : UInt16}
      {cause : DecodeError} (opening : OpensBody afterName body)
      (flagsOpen : CutAtFirst " [".toList body segment afterOpen)
      (ports : HasPorts segment source destination) (flagsClose : afterOpen = flags ++ ']' :: tail)
      (first : ']' ∉ flags) (fault : AckFault tail cause) : HeaderFault afterName cause

/-- The first part of a line with a TCP header that is missing or misspelled. -/
inductive FirstFault (line : List Char) : DecodeError → Prop where
  | timestamp {cause : DecodeError} (named : "ns3::TcpHeader".toList <:+: line)
      (fault : TimestampFault line cause) : FirstFault line cause
  | header {token before afterName : List Char} {cause : DecodeError}
      (second : IsSecondWord line token) (finite : SpellsFinite (String.ofList token))
      (name : CutAtFirst "ns3::TcpHeader".toList line before afterName)
      (fault : HeaderFault afterName cause) : FirstFault line cause

namespace Line

theorem readTimestamp_eq_error_iff (line : List Char) (cause : DecodeError) :
    readTimestamp line = .error cause ↔ TimestampFault line cause := by
  constructor
  · intro failure
    unfold readTimestamp at failure
    split at failure
    · rename_i absent
      obtain rfl := Except.error.inj failure
      refine .missing fun word second => ?_
      rw [(getElem?_words_one_iff line word).mpr second] at absent
      cases absent
    · rename_i token found
      split at failure
      · cases failure
      · rename_i unusable
        obtain rfl := Except.error.inj failure
        refine .bad ((getElem?_words_one_iff line token).mp found) ?_
        rw [SpellsFinite, String.toList_ofList]
        rwa [Option.any_eq_true] at unusable
  · intro fault
    unfold readTimestamp
    cases fault with
    | missing absent =>
      cases found : (words line)[1]? with
      | none => rfl
      | some word => exact absurd ((getElem?_words_one_iff line word).mp found) (absent word)
    | @bad token second unusable =>
      rw [SpellsFinite, String.toList_ofList, ← Option.any_eq_true] at unusable
      simp only [(getElem?_words_one_iff line token).mpr second, if_neg unusable]

theorem readOpen_eq_error_iff (afterName : List Char) (cause : DecodeError) :
    readOpen afterName = .error cause ↔
      (∀ body, ¬OpensBody afterName body) ∧ cause = .missingHeaderOpen := by
  have opens : ∀ body, readOpen afterName = .ok body ↔ OpensBody afterName body :=
    readOpen_eq_ok_iff afterName
  simp only [← opens, readOpen]
  split <;> simp [eq_comm]

theorem cutFlags_eq_error_iff (mark text : List Char) (cause : DecodeError) :
    cutFlags mark text = .error cause ↔ ¬mark <:+: text ∧ cause = .missingFlags := by
  rw [← cut_eq_none_iff, cutFlags]
  cases cut mark text <;> simp [eq_comm]

theorem readPort_eq_error_iff (text : List Char) (cause : DecodeError) :
    readPort text = .error cause ↔ PortFault text cause := by
  constructor
  · intro failure
    unfold readPort at failure
    split at failure
    · cases failure
    · rename_i misspelled
      obtain rfl := Except.error.inj failure
      refine .bad (isTrimmed_trim text) fun port numeral => ?_
      rw [(uint16?_eq_some_iff _ port).mpr numeral] at misspelled
      cases misspelled
  · rintro ⟨trimmed, misspelled⟩
    obtain rfl := (trim_eq_iff_isTrimmed text _).mpr trimmed
    unfold readPort
    split
    · rename_i port numeral
      exact absurd ((uint16?_eq_some_iff _ port).mp numeral) (misspelled port)
    · rfl

theorem readPorts_eq_error_iff (segment : List Char) (cause : DecodeError) :
    readPorts segment = .error cause ↔ PortsFault segment cause := by
  constructor
  · intro failure
    unfold readPorts at failure
    split at failure
    · rename_i absent
      obtain rfl := Except.error.inj failure
      exact .unparted ((cut_eq_none_iff _ _).mp absent)
    · rename_i source destination separator
      have parted := (cut_eq_some_iff _ _ _ _).mp separator
      rcases bind_eq_error_iff.mp failure with fails | ⟨port, reads, later⟩
      · exact .source parted ((readPort_eq_error_iff source cause).mp fails)
      · rcases bind_eq_error_iff.mp later with fails | ⟨_, _, done⟩
        · exact .destination parted ((readPort_eq_ok_iff source port).mp reads)
            ((readPort_eq_error_iff destination cause).mp fails)
        · cases done
  · intro fault
    unfold readPorts
    cases fault with
    | unparted absent =>
      have nowhere : cut portSeparator segment = none := (cut_eq_none_iff _ _).mpr absent
      rw [nowhere]
      rfl
    | source separator fault =>
      have parted : cut portSeparator segment = some _ := (cut_eq_some_iff _ _ _ _).mpr separator
      rw [parted]
      exact bind_eq_error_iff.mpr (Or.inl ((readPort_eq_error_iff _ cause).mpr fault))
    | destination separator sourcePort fault =>
      have parted : cut portSeparator segment = some _ := (cut_eq_some_iff _ _ _ _).mpr separator
      have reads := (readPort_eq_ok_iff _ _).mpr sourcePort
      have fails := (readPort_eq_error_iff _ cause).mpr fault
      rw [parted]
      exact bind_eq_error_iff.mpr (Or.inr ⟨_, reads, bind_eq_error_iff.mpr (Or.inl fails)⟩)

theorem readAck_eq_error_iff (tail : List Char) (cause : DecodeError) :
    readAck tail = .error cause ↔ AckFault tail cause := by
  constructor
  · intro failure
    unfold readAck at failure
    split at failure
    · cases failure
    · rename_i before rest found
      have mark := (cut_eq_some_iff _ _ _ _).mp found
      split at failure
      · rename_i absent
        obtain rfl := Except.error.inj failure
        exact .endless mark ((cut_eq_none_iff _ _).mp absent)
      · rename_i text after ended
        have window := (cut_eq_some_iff _ _ _ _).mp ended
        split at failure
        · cases failure
        · rename_i misspelled
          obtain rfl := Except.error.inj failure
          refine .bad mark window fun ack numeral => ?_
          rw [(uint32?_eq_some_iff text ack).mpr numeral] at misspelled
          cases misspelled
  · intro fault
    unfold readAck
    cases fault with
    | endless mark absent =>
      have found : cut ackMark tail = some _ := (cut_eq_some_iff _ _ _ _).mpr mark
      have nowhere : cut windowMark _ = none := (cut_eq_none_iff _ _).mpr absent
      simp only [found, nowhere]
    | @bad _ _ text _ mark window misspelled =>
      have found : cut ackMark tail = some _ := (cut_eq_some_iff _ _ _ _).mpr mark
      have ended : cut windowMark _ = some _ := (cut_eq_some_iff _ _ _ _).mpr window
      simp only [found, ended]
      split
      · rename_i ack numeral
        exact absurd ((uint32?_eq_some_iff text ack).mp numeral) (misspelled ack)
      · rfl

theorem headerFault_iff (afterName : List Char) (cause : DecodeError) :
    (readOpen afterName = .error cause ∨
      ∃ body, readOpen afterName = .ok body ∧
        (cutFlags flagsOpen body = .error cause ∨
          ∃ segment afterOpen, cutFlags flagsOpen body = .ok (segment, afterOpen) ∧
            (readPorts segment = .error cause ∨
              ∃ source destination, readPorts segment = .ok (source, destination) ∧
                (cutFlags flagsClose afterOpen = .error cause ∨
                  ∃ flags tail, cutFlags flagsClose afterOpen = .ok (flags, tail) ∧
                    readAck tail = .error cause)))) ↔ HeaderFault afterName cause := by
  have unclosed : ∀ text, flagsClose <:+: text ↔ ']' ∈ text := List.singleton_infix_iff ']'
  have closes : ∀ text flags tail, CutAtFirst flagsClose text flags tail ↔
      text = flags ++ ']' :: tail ∧ ']' ∉ flags := cutAtFirst_single_iff ']'
  simp only [readOpen_eq_error_iff, readOpen_eq_ok_iff, cutFlags_eq_error_iff, cutFlags_eq_ok_iff,
    readPorts_eq_error_iff, readPorts_eq_ok_iff, readAck_eq_error_iff, unclosed, closes]
  constructor
  · rintro (⟨absent, rfl⟩ | ⟨body, opening, ⟨absent, rfl⟩ | ⟨segment, afterOpen, opens, fault |
      ⟨source, destination, ports, ⟨absent, rfl⟩ | ⟨flags, tail, ⟨close, first⟩, fault⟩⟩⟩⟩)
    · exact .unopened absent
    · exact .flagless opening absent
    · exact .ports opening opens fault
    · exact .unclosed opening opens ports absent
    · exact .ack opening opens ports close first fault
  · intro fault
    cases fault with
    | unopened absent => exact Or.inl ⟨absent, rfl⟩
    | flagless opening absent => exact Or.inr ⟨_, opening, Or.inl ⟨absent, rfl⟩⟩
    | ports opening opens fault => exact Or.inr ⟨_, opening, Or.inr ⟨_, _, opens, Or.inl fault⟩⟩
    | unclosed opening opens ports absent =>
      exact Or.inr ⟨_, opening, Or.inr ⟨_, _, opens, Or.inr ⟨_, _, ports, Or.inl ⟨absent, rfl⟩⟩⟩⟩
    | ack opening opens ports close first fault =>
      exact Or.inr ⟨_, opening, Or.inr ⟨_, _, opens,
        Or.inr ⟨_, _, ports, Or.inr ⟨_, _, ⟨close, first⟩, fault⟩⟩⟩⟩

/-- The time is looked at before the header. -/
theorem decodeHeader_eq_error_iff (line afterName : List Char) (cause : DecodeError) :
    decodeHeader line afterName = .error cause ↔
      TimestampFault line cause ∨
        ∃ token, IsSecondWord line token ∧ SpellsFinite (String.ofList token) ∧
          HeaderFault afterName cause := by
  simp only [decodeHeader, bind_eq_error_iff, readTimestamp_eq_error_iff, readTimestamp_eq_ok_iff,
    ← headerFault_iff, Prod.exists, and_assoc, pure, Except.pure, reduceCtorEq, and_false, exists_false,
    or_false]

theorem decode_eq_error_iff (line : List Char) (cause : DecodeError) :
    decode line = .error cause ↔ FirstFault line cause := by
  have refused : decode line = .error cause ↔ ∃ before afterName,
      CutAtFirst "ns3::TcpHeader".toList line before afterName ∧
        decodeHeader line afterName = .error cause := by
    simp only [← cut_eq_some_iff]
    change _ ↔ ∃ before afterName, cut headerName line = some (before, afterName) ∧ _
    rw [decode]
    cases cut headerName line with
    | none => simp
    | some parts =>
      obtain ⟨before, afterName⟩ := parts
      simp [map_eq_error_iff]
  rw [refused]
  simp only [decodeHeader_eq_error_iff]
  constructor
  · rintro ⟨before, afterName, name, fault | ⟨token, second, finite, fault⟩⟩
    · exact .timestamp ⟨before, afterName, name.whole.symm⟩ fault
    · exact .header second finite name fault
  · rintro (⟨named, fault⟩ | ⟨second, finite, name, fault⟩)
    · obtain ⟨⟨before, afterName⟩, found⟩ := Option.isSome_iff_exists.mp
        ((occurs_iff_isInfix headerName line).mpr named)
      exact ⟨before, afterName, (cut_eq_some_iff _ _ _ _).mp found, Or.inl fault⟩
    · exact ⟨_, _, name, Or.inr ⟨_, second, finite, fault⟩⟩

/-- A line with the name of a TCP header decodes, or it is refused for the one part of it that is missing
or misspelled first. -/
theorem decode_reports_first_fault (line : List Char) :
    (∀ cause, decode line = .error cause ↔ FirstFault line cause) ∧
      ((∃! cause, FirstFault line cause) ↔
        "ns3::TcpHeader".toList <:+: line ∧ ∀ decoded, ¬IsTcpLine line decoded) := by
  have refused : (∃! cause, FirstFault line cause) ↔ ∃ cause, decode line = .error cause := by
    simp only [← decode_eq_error_iff]
    constructor
    · rintro ⟨cause, failure, _⟩
      exact ⟨cause, failure⟩
    · rintro ⟨cause, failure⟩
      exact ⟨cause, failure, fun other again => Except.error.inj (again.symm.trans failure)⟩
  refine ⟨decode_eq_error_iff line, ?_⟩
  have named := Decidable.not_iff_comm.mp (decode_eq_none_iff line).symm
  simp only [refused, ← named, ← decode_eq_some_iff]
  cases decode line with
  | error cause => simp
  | ok decoded => cases decoded <;> simp

/-- Neither port is a numeral and the flags have no end; the source port is what is reported. -/
example : decode "- 1.0 x ns3::TcpHeader ( 70000 > y [SYN".toList = .error (.badPort "70000") := by
  decide +kernel

end Line

end FlowAudit.Trace
