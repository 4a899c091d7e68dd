import FlowAudit.Flow.Key
import FlowAudit.Flow.Record

set_option autoImplicit false

/-!
Flow tables. A table lists flows in the order in which they were first seen, each once; no
operation moves a flow, removes one or replaces what is known of it.
-/
namespace FlowAudit.Flow

structure Table where
  flows : List (Key × Record)
  distinct : (flows.map Prod.fst).Nodup
  deriving DecidableEq, Repr

namespace Table

def empty : Table := ⟨[], List.nodup_nil⟩

def keys (table : Table) : List Key :=
  table.flows.map Prod.fst

def size (table : Table) : Nat :=
  table.flows.length

def get? (table : Table) (key : Key) : Option Record :=
  table.flows.lookup key

def contains (table : Table) (key : Key) : Bool :=
  key ∈ table.keys

/-- Adds a flow that the table does not have at the end. -/
def append (table : Table) (key : Key) (record : Record) (new : key ∉ table.keys) : Table where
  flows := table.flows ++ [(key, record)]
  distinct := by
    simp only [List.map_append, List.map_cons, List.map_nil]
    refine List.nodup_append.mpr ⟨table.distinct, by simp, ?_⟩
    intro old inside added single same
    rw [List.mem_singleton.mp single] at same
    exact new (same ▸ inside)

/-- Changes the record of one flow in its place. -/
def modify (table : Table) (key : Key) (change : Record → Record) : Table where
  flows := table.flows.map fun flow => if flow.1 = key then (flow.1, change flow.2) else flow
  distinct := by
    have same : (table.flows.map fun flow =>
        if flow.1 = key then (flow.1, change flow.2) else flow).map Prod.fst =
          table.flows.map Prod.fst := by
      rw [List.map_map]
      apply List.map_congr_left
      intro flow _
      simp only [Function.comp_apply]
      split <;> rfl
    rw [same]
    exact table.distinct

/-- Opens a flow. One that is open keeps its first start. -/
def openFlow (table : Table) (key : Key) (start : String) : Table :=
  if new : key ∈ table.keys then table else table.append key (Record.opened start) new

/-- Notes an ack of a flow that the table has. -/
def recordAck (table : Table) (key : Key) (ack : UInt32) (time : String) : Table :=
  table.modify key fun record => record.recordAck ack time

/-- Adds another observation of a flow. -/
def absorb (table : Table) (key : Key) (record : Record) : Table :=
  if new : key ∈ table.keys then table.modify key fun known => known.absorb record
  else table.append key record new

/-- Adds every observation of another table, in its order. -/
def merge (table other : Table) : Table :=
  other.flows.foldl (fun merged flow => merged.absorb flow.1 flow.2) table

end Table

end FlowAudit.Flow
