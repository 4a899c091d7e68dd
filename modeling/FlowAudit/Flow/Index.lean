import FlowAudit.Flow.Interchange

set_option autoImplicit false

/-!
Flow tables that find their flows by an index. Such a table keeps, beside its entries, the place of each
key in them; it takes the entry at that place for the entry of the key without looking at it, and stops
with a fault where there is none. `IndexedTable.plain` forgets the index.
-/
namespace FlowAudit.Flow

open FlowAudit.Text

/-- The places of keys, at most one for each. -/
structure Places where
  pairs : List (Key × Nat)
  distinct : (pairs.map Prod.fst).Nodup
  deriving Repr

namespace Places

def empty : Places := ⟨[], List.nodup_nil⟩

def place? (places : Places) (key : Key) : Option Nat :=
  places.pairs.lookup key

/-- Gives a key a place, in the stead of the one that it may have. -/
def insert (places : Places) (key : Key) (place : Nat) : Places where
  pairs := (key, place) :: places.pairs.filter fun pair => pair.1 ≠ key
  distinct := by
    have others : ((places.pairs.filter fun pair => pair.1 ≠ key).map Prod.fst).Nodup :=
      places.distinct.sublist (List.filter_sublist.map Prod.fst)
    refine List.nodup_cons.mpr ⟨?_, others⟩
    simp

/-- The order in which the places were given does not count. -/
def agree (first second : Places) : Bool :=
  first.pairs.length == second.pairs.length &&
    first.pairs.all fun pair => second.place? pair.1 == some pair.2

instance : BEq Places := ⟨agree⟩

end Places

structure IndexedTable where
  entries : List (Key × Record)
  places : Places
  deriving BEq, Repr

/-- The index gives a place at which there is no entry. -/
structure IndexFault where
  place : Nat
  deriving DecidableEq, Repr

namespace IndexedTable

def empty : IndexedTable := ⟨[], Places.empty⟩

def keys (table : IndexedTable) : List Key :=
  table.entries.map Prod.fst

def contains (table : IndexedTable) (key : Key) : Bool :=
  (table.places.place? key).isSome

/-- The place of a key, and the entry that stands there. -/
def locate? (table : IndexedTable) (key : Key) :
    Except IndexFault (Option (Nat × Key × Record)) :=
  match table.places.place? key with
  | none => .ok none
  | some place =>
      match table.entries[place]? with
      | some entry => .ok (some (place, entry))
      | none => .error ⟨place⟩

def get? (table : IndexedTable) (key : Key) : Except IndexFault (Option Record) :=
  (table.locate? key).map fun found => found.map fun (_, _, record) => record

/-- Changes the record at the place of a key, if the key has one. -/
def modify? (table : IndexedTable) (key : Key) (change : Record → Record) :
    Except IndexFault (Option IndexedTable) :=
  (table.locate? key).map fun found => found.map fun (place, owner, record) =>
    { table with entries := table.entries.set place (owner, change record) }

/-- Puts an entry last and gives its key that place. -/
def append (table : IndexedTable) (key : Key) (record : Record) : IndexedTable where
  entries := table.entries ++ [(key, record)]
  places := table.places.insert key table.entries.length

/-- Opens a flow. One that is open keeps its first start. -/
def openFlow (table : IndexedTable) (key : Key) (start : String) : IndexedTable :=
  if table.contains key then table else table.append key (Record.opened start)

/-- Notes an ack of a flow, if the table has the flow. -/
def recordAck? (table : IndexedTable) (key : Key) (ack : UInt32) (time : String) :
    Except IndexFault (Option IndexedTable) :=
  table.modify? key fun record => record.recordAck ack time

/-- Adds another observation of a flow. -/
def absorb (table : IndexedTable) (key : Key) (record : Record) : Except IndexFault IndexedTable :=
  (table.modify? key fun known => known.absorb record).map fun changed =>
    changed.getD (table.append key record)

/-- Adds every observation of another table, in its order. -/
def merge (table other : IndexedTable) : Except IndexFault IndexedTable :=
  other.entries.foldlM (fun merged entry => merged.absorb entry.1 entry.2) table

/-- Adds the records of lines; the first line has the given number. -/
def readLines (table : IndexedTable) (number : Nat) :
    List (List Char) → Except IndexFault (Except TableError IndexedTable)
  | [] => .ok (.ok table)
  | line :: rest =>
      if (trim line).isEmpty then readLines table (number + 1) rest
      else
        match readRecordLine line with
        | .ok (key, record) => do readLines (← table.absorb key record) (number + 1) rest
        | .error cause => .ok (.error ⟨number, cause⟩)

def ofInterchange (text : List Char) : Except IndexFault (Except TableError IndexedTable) :=
  readLines empty 1 (lines text)

/-- The table with the same entries. -/
def plain (table : IndexedTable) : Table :=
  table.entries.foldl (fun plain entry => plain.absorb entry.1 entry.2) Table.empty

end IndexedTable

end FlowAudit.Flow
