import FlowAudit.Flow.Timeline

set_option autoImplicit false

/-!
Flow records: when a flow was opened and when each ack number was first seen. Times are kept as
the texts that were found.
-/
namespace FlowAudit.Flow

structure Record where
  start : String
  acks : Timeline
  deriving DecidableEq, Repr

namespace Record

/-- A flow of which only the opening has been seen. -/
def opened (start : String) : Record :=
  ⟨start, Timeline.empty⟩

/-- Notes the time of an ack unless one is noted already. -/
def recordAck (record : Record) (ack : UInt32) (time : String) : Record :=
  { record with acks := record.acks.insert ack time }

def ackTime? (record : Record) (ack : UInt32) : Option String :=
  record.acks.time? ack

/-- Takes over the acks that another observation of the flow adds; what is known stays. -/
def absorb (record other : Record) : Record :=
  { record with acks := record.acks.union other.acks }

end Record

end FlowAudit.Flow
