import FlowAudit.Proofs.Flow.Interchange
import FlowAudit.Proofs.Trace.Replay

set_option autoImplicit false

/-!
The times of tables that come from traces. Decoding lets only texts of finite doubles through; no
operation on tables makes up a time, so every start and every ack time of such a table spells one
(`IsTraced.allTimes`).
-/
namespace FlowAudit.Flow.Table

variable {property : String → Prop}

/-- Every start and every ack time of the table has the property. -/
structure AllTimes (property : String → Prop) (table : Table) : Prop where
  starts : ∀ key time, table.start? key = some time → property time
  acks : ∀ key ack time, table.ackTime? key ack = some time → property time

theorem allTimes_empty : empty.AllTimes property where
  starts := by
    intro key time found
    cases found
  acks := by
    intro key ack time found
    cases found

theorem AllTimes.merge {first second : Table} (left : first.AllTimes property)
    (right : second.AllTimes property) : (first.merge second).AllTimes property where
  starts := by
    intro key time found
    rw [start?_merge, Option.or_eq_some_iff] at found
    rcases found with known | ⟨_, late⟩
    · exact left.starts key time known
    · exact right.starts key time late
  acks := by
    intro key ack time found
    rw [ackTime?_merge, Option.or_eq_some_iff] at found
    rcases found with known | ⟨_, late⟩
    · exact left.acks key ack time known
    · exact right.acks key ack time late

theorem AllTimes.of_mem {table : Table} (all : table.AllTimes property) {key : Key} {record : Record}
    (inside : (key, record) ∈ table.flows) :
    property record.start ∧ ∀ ack time, record.ackTime? ack = some time → property time := by
  have found := get?_of_mem inside
  constructor
  · apply all.starts key
    rw [start?, found, Option.map_some]
  · intro ack time noted
    apply all.acks key ack
    rw [ackTime?, found, Option.bind_some, noted]

end FlowAudit.Flow.Table

namespace FlowAudit.Trace

open FlowAudit.Flow

/-- The time that an event brings. -/
def Event.time? : Event → Option String
  | .opening _ time => some time
  | .acknowledgement _ _ time => some time
  | .malformed _ => none
  | .control => none
  | .unrelated => none

theorem spellsFinite_of_ofLine {control : PortRange} {line : List Char} {time : String}
    (brings : (Event.ofLine control line).time? = some time) : Decimal.SpellsFinite time := by
  cases event : Event.ofLine control line with
  | opening key token =>
    rw [event] at brings
    obtain rfl : token = time := Option.some.inj brings
    obtain ⟨⟨decoded, live, _⟩, found⟩ := (ofLine_eq_opening_iff control line key token).mp event
    rw [decode_timestamp live.decodes] at found
    exact Option.some.inj found ▸ spellsFinite_of_decode live.decodes
  | acknowledgement key ack token =>
    rw [event] at brings
    obtain rfl : token = time := Option.some.inj brings
    obtain ⟨⟨decoded, live, _⟩, found⟩ :=
      (ofLine_eq_acknowledgement_iff control line key ack token).mp event
    rw [decode_timestamp live.decodes] at found
    exact Option.some.inj found ▸ spellsFinite_of_decode live.decodes
  | malformed | control | unrelated =>
    rw [event] at brings
    cases brings

theorem Event.time?_of_startOf? {event : Event} {key : Key} {time : String}
    (opens : event.startOf? key = some time) : event.time? = some time := by
  cases event with
  | opening other token =>
    rw [startOf?] at opens
    split at opens
    · exact opens
    · cases opens
  | acknowledgement | malformed | control | unrelated => cases opens

theorem Event.time?_of_ackTimeOf? {event : Event} {key : Key} {ack : UInt32} {time : String}
    (acknowledges : event.ackTimeOf? key ack = some time) : event.time? = some time := by
  cases event with
  | acknowledgement other number token =>
    rw [ackTimeOf?] at acknowledges
    split at acknowledges
    · exact acknowledges
    · cases acknowledges
  | opening | malformed | control | unrelated => cases acknowledges

/-- An event adds no time but its own. -/
theorem Event.allTimes_applyTo {property : String → Prop} {event : Event} {table : Table}
    (sound : ∀ time, event.time? = some time → property time) (all : table.AllTimes property) :
    (event.applyTo table).AllTimes property where
  starts := by
    intro key time found
    rw [start?_applyTo, Option.or_eq_some_iff] at found
    rcases found with known | ⟨_, opens⟩
    · exact all.starts key time known
    · exact sound time (time?_of_startOf? opens)
  acks := by
    intro key ack time found
    rw [ackTime?_applyTo, Option.or_eq_some_iff] at found
    rcases found with known | ⟨_, late⟩
    · exact all.acks key ack time known
    · split at late
      · exact sound time (time?_of_ackTimeOf? late)
      · cases late

theorem allTimes_replay {property : String → Prop} {events : List Event}
    (sound : ∀ event ∈ events, ∀ time, event.time? = some time → property time) {table : Table}
    (all : table.AllTimes property) : (replay table events).AllTimes property := by
  induction events generalizing table with
  | nil => exact all
  | cons event rest ih =>
    rw [replay_cons]
    apply ih
    · intro later inside
      exact sound later (List.mem_cons_of_mem event inside)
    · exact Event.allTimes_applyTo (sound event List.mem_cons_self) all

theorem allTimes_reconstruct (control : PortRange) (lines : List (List Char)) :
    (reconstruct control lines).table.AllTimes Decimal.SpellsFinite := by
  rw [table_reconstruct]
  refine allTimes_replay ?_ Table.allTimes_empty
  intro event inside time brings
  obtain ⟨line, _, rfl⟩ := List.mem_map.mp inside
  exact spellsFinite_of_ofLine brings

/-- The tables that come from traces: each trace under a range of its own, merged in any order, and
written and read again at any point. -/
inductive IsTraced : Table → Prop
  | reconstructed (control : PortRange) (lines : List (List Char)) :
      IsTraced (reconstruct control lines).table
  | merged {first second : Table} (left : IsTraced first) (right : IsTraced second) :
      IsTraced (first.merge second)
  | reread {table again : Table} (traced : IsTraced table)
      (reads : Table.ofInterchange table.interchange = .ok again) : IsTraced again

theorem IsTraced.allTimes {table : Table} (traced : IsTraced table) :
    table.AllTimes Decimal.SpellsFinite := by
  induction traced with
  | reconstructed control lines => exact allTimes_reconstruct control lines
  | merged _ _ left right => exact left.merge right
  | reread _ reads all =>
    rw [Table.ofInterchange_interchange] at reads
    exact Except.ok.inj reads ▸ all

end FlowAudit.Trace
