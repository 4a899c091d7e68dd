import FlowAudit.Proofs.Trace.Line
import FlowAudit.Trace.Reconstruction

set_option autoImplicit false

/-!
What a line says, told by the line itself. A live line is one that decodes and has no control port; it
opens a flow when it was sent with the SYN flag alone, and it acknowledges one when it was received with
an ack number. `ofLine_eq_opening_iff` and `ofLine_eq_acknowledgement_iff` say that the events of lines
are just these.
-/
namespace FlowAudit.Trace

open FlowAudit.Text FlowAudit.Flow

/-- The second word of a line, which tells its time. -/
def timeToken? (line : List Char) : Option String :=
  (words line)[1]?.map String.ofList

structure IsLive (control : PortRange) (line : List Char) (decoded : Line) : Prop where
  decodes : Line.decode line = .ok (some decoded)
  source : control.contains decoded.source = false
  destination : control.contains decoded.destination = false

/-- The line sends the opening SYN of a flow. -/
def Opens (control : PortRange) (key : Key) (line : List Char) : Prop :=
  ∃ decoded, IsLive control line decoded ∧ decoded.direction = .send ∧ decoded.flags = "SYN" ∧
    key = ⟨decoded.source, decoded.destination⟩

/-- The line receives an ack of a flow; it travels back, so its ports come in the other order. -/
def Acknowledges (control : PortRange) (key : Key) (ack : UInt32) (line : List Char) : Prop :=
  ∃ decoded, IsLive control line decoded ∧ decoded.direction = .receive ∧ decoded.ack = some ack ∧
    key = ⟨decoded.destination, decoded.source⟩

/-- A decoded line keeps the text of its time as it stands in the line. -/
theorem decode_timestamp {line : List Char} {decoded : Line}
    (success : Line.decode line = .ok (some decoded)) :
    timeToken? line = some decoded.timestamp := by
  have second := ((Line.decode_eq_some_iff line decoded).mp success).timestamp
  rw [timeToken?, (getElem?_words_one_iff _ _).mpr second, Option.map_some, String.ofList_toList]

theorem spellsFinite_of_decode {line : List Char} {decoded : Line}
    (success : Line.decode line = .ok (some decoded)) : Decimal.SpellsFinite decoded.timestamp :=
  ((Line.decode_eq_some_iff line decoded).mp success).finite

theorem IsLive.unique {control : PortRange} {line : List Char} {first second : Line}
    (one : IsLive control line first) (other : IsLive control line second) : first = second := by
  have same := one.decodes.symm.trans other.decodes
  exact Option.some.inj (Except.ok.inj same)

theorem Opens.unique {control : PortRange} {line : List Char} {first second : Key}
    (one : Opens control first line) (other : Opens control second line) : first = second := by
  obtain ⟨decoded, live, _, _, rfl⟩ := one
  obtain ⟨again, liveAgain, _, _, rfl⟩ := other
  rw [live.unique liveAgain]

/-! The events of lines -/

theorem event_of_control {control : PortRange} {decoded : Line}
    (hit : (control.contains decoded.source || control.contains decoded.destination) = true) :
    decoded.event control = .control := by
  rw [Line.event, if_pos hit]

theorem event_of_live {control : PortRange} {line : List Char} {decoded : Line}
    (live : IsLive control line decoded) :
    Event.ofLine control line =
      match decoded.direction, decoded.ack with
      | .send, _ => if decoded.isSyn then .opening decoded.sendKey decoded.timestamp else .unrelated
      | .receive, some ack => .acknowledgement decoded.receiveKey ack decoded.timestamp
      | _, _ => .unrelated := by
  have read : Event.ofLine control line = decoded.event control := by
    simp only [Event.ofLine, live.decodes]
  have free : ¬ (control.contains decoded.source || control.contains decoded.destination) := by
    rw [live.source, live.destination]
    decide
  rw [read]
  exact if_neg free

/-- An event that concerns flows comes from a live line. -/
theorem live_of_event {control : PortRange} {line : List Char}
    (concerns : (∃ key time, Event.ofLine control line = .opening key time) ∨
      ∃ key ack time, Event.ofLine control line = .acknowledgement key ack time) :
    ∃ decoded, IsLive control line decoded := by
  unfold Event.ofLine at concerns
  split at concerns
  · simp at concerns
  · simp at concerns
  · rename_i decoded decodes
    by_cases hit : (control.contains decoded.source || control.contains decoded.destination) = true
    · simp [event_of_control hit] at concerns
    · rw [Bool.not_eq_true, Bool.or_eq_false_iff] at hit
      exact ⟨decoded, decodes, hit.1, hit.2⟩

theorem ofLine_eq_opening_iff (control : PortRange) (line : List Char) (key : Key) (time : String) :
    Event.ofLine control line = .opening key time ↔
      Opens control key line ∧ timeToken? line = some time := by
  constructor
  · intro same
    obtain ⟨decoded, live⟩ := live_of_event (Or.inl ⟨key, time, same⟩)
    rw [event_of_live live] at same
    split at same
    · rename_i sent
      split at same
      · rename_i syn
        obtain ⟨rfl, rfl⟩ := Event.opening.inj same
        exact ⟨⟨decoded, live, sent, eq_of_beq syn, rfl⟩, decode_timestamp live.decodes⟩
      · cases same
    · cases same
    · cases same
  · rintro ⟨⟨decoded, live, sent, syn, rfl⟩, token⟩
    obtain rfl : decoded.timestamp = time :=
      Option.some.inj ((decode_timestamp live.decodes).symm.trans token)
    rw [event_of_live live]
    simp [sent, Line.isSyn, syn, Line.sendKey, Key.ofSend]

theorem ofLine_eq_acknowledgement_iff (control : PortRange) (line : List Char) (key : Key)
    (ack : UInt32) (time : String) :
    Event.ofLine control line = .acknowledgement key ack time ↔
      Acknowledges control key ack line ∧ timeToken? line = some time := by
  constructor
  · intro same
    obtain ⟨decoded, live⟩ := live_of_event (Or.inr ⟨key, ack, time, same⟩)
    rw [event_of_live live] at same
    split at same
    · split at same <;> cases same
    · rename_i number received carried
      obtain ⟨rfl, rfl, rfl⟩ := Event.acknowledgement.inj same
      exact ⟨⟨decoded, live, received, carried, rfl⟩, decode_timestamp live.decodes⟩
    · cases same
  · rintro ⟨⟨decoded, live, received, carried, rfl⟩, token⟩
    obtain rfl : decoded.timestamp = time :=
      Option.some.inj ((decode_timestamp live.decodes).symm.trans token)
    rw [event_of_live live]
    simp [received, carried, Line.receiveKey, Key.ofReceive]

theorem exists_timeToken?_of_opens {control : PortRange} {key : Key} {line : List Char}
    (opens : Opens control key line) : ∃ time, timeToken? line = some time := by
  obtain ⟨decoded, live, _⟩ := opens
  exact ⟨decoded.timestamp, decode_timestamp live.decodes⟩

theorem exists_timeToken?_of_acknowledges {control : PortRange} {key : Key} {ack : UInt32}
    {line : List Char} (acknowledges : Acknowledges control key ack line) :
    ∃ time, timeToken? line = some time := by
  obtain ⟨decoded, live, _⟩ := acknowledges
  exact ⟨decoded.timestamp, decode_timestamp live.decodes⟩

/-- A line is malformed when it has a TCP header that cannot be decoded. -/
theorem ofLine_eq_malformed_iff (control : PortRange) (line : List Char) (cause : DecodeError) :
    Event.ofLine control line = .malformed cause ↔ Line.decode line = .error cause := by
  unfold Event.ofLine
  split
  · rename_i found decodes
    rw [decodes, Event.malformed.injEq, Except.error.injEq]
  · rename_i decodes
    simp [decodes]
  · rename_i decoded decodes
    rw [decodes]
    simp only [Line.event, reduceCtorEq, iff_false]
    split
    · simp
    · split
      · split <;> simp
      · simp
      · simp

end FlowAudit.Trace
