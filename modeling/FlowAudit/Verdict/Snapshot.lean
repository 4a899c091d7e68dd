import FlowAudit.Json.Fields
import FlowAudit.Json.Printer
import FlowAudit.Json.Reader

set_option autoImplicit false

/-!
Counter snapshots, the evidence at one drop decision, and the documents that hold them. A document
is read as a whole: one entry that cannot be read refuses all of it.
-/
namespace FlowAudit.Verdict

structure Snapshot where
  droppable : UInt64
  dropped : UInt64
  duplicate : UInt64
  /-- Dropped packets that were never seen again. -/
  notSeenDropped : UInt64
  /-- Dropped packets that were sent once more. -/
  retransmittedDropped : UInt64
  deriving DecidableEq, Repr

namespace Snapshot

def fieldNames : List String :=
  ["droppablePkts", "droppedPkts", "duplicatePkts", "notSeenDroppedPkts",
    "retransmittedDroppedPkts"]

def ofJson? (value : Json.Value) : Option Snapshot :=
  match value.fields? fieldNames with
  | some [some droppable, some dropped, some duplicate, some notSeen, some retransmitted] => do
      return {
        droppable := ← droppable.uint64?
        dropped := ← dropped.uint64?
        duplicate := ← duplicate.uint64?
        notSeenDropped := ← notSeen.uint64?
        retransmittedDropped := ← retransmitted.uint64? }
  | _ => none

/-- An entry of a document is a record whose only known field holds the counters. -/
def ofEntry? (value : Json.Value) : Option Snapshot :=
  match value.fields? ["counters"] with
  | some [some counters] => ofJson? counters
  | _ => none

/-- The snapshots of a document; one without the field has none. -/
def listOfJson? (value : Json.Value) : Option (List Snapshot) :=
  match value.fields? ["snapshots"] with
  | some [some (.array entries)] => entries.mapM ofEntry?
  | some [none] => some []
  | _ => none

/-- The snapshots of a JSON text, in the order of the document. -/
def readDocument? (text : List Char) : Option (List Snapshot) :=
  (Json.parse? text).bind listOfJson?

end Snapshot

end FlowAudit.Verdict
