import FlowAudit.Command.Files
import FlowAudit.Distribution.Group
import FlowAudit.Trace.PortRange
import FlowAudit.Verdict.Settings

set_option autoImplicit false

/-!
Failures of requests: what went wrong, and what lies behind it.
-/
namespace FlowAudit.Command

open FlowAudit.Distribution FlowAudit.Trace FlowAudit.Verdict

/-- What a file is read for. -/
inductive FileRole where
  | profile
  | trace
  | snapshots
  deriving DecidableEq, Repr

def FileRole.phrase : FileRole → String
  | profile => "profile"
  | trace => "trace file"
  | snapshots => "snapshot file"

inductive Failure where
  | unreadable (role : FileRole) (path : String) (cause : FileError)
  | badProfile
  | badSnapshots (path : String)
  | badControlRange (cause : EmptyControlRange)
  | badSettings (cause : SettingsFault)
  | unlistable (directory : String) (cause : FileError)
  | noGroupRules
  | packetOverflow (packets : UInt32)
  | noDistributions (cause : GroupError)
  | unwritable (path : String) (cause : FileError)

namespace Failure

def message : Failure → String
  | unreadable role path _ => s!"Failed to read {role.phrase} {path}"
  | badProfile => "Failed to parse analysis profile"
  | badSnapshots path => s!"Failed to parse snapshot file {path}"
  | badControlRange _ => "Invalid [config] control port range"
  | badSettings _ => "Invalid verdict configuration"
  | unlistable directory _ => s!"Failed to list directory {directory}"
  | noGroupRules => "fct needs [[groups]] rules in the --config profile"
  | packetOverflow packets => s!"Packet count {packets.toNat} overflows the ack space"
  | noDistributions _ => "Cannot build completion-time distributions"
  | unwritable path _ => s!"Failed to write output file {path}"

/-- What lies behind a failure, where more is known than that it happened. -/
def cause? : Failure → Option String
  | unreadable _ _ cause => some cause.message
  | badControlRange cause => some cause.message
  | badSettings cause => some cause.message
  | unlistable _ cause => some cause.message
  | noDistributions cause => some cause.message
  | unwritable _ cause => some cause.message
  | badProfile => none
  | badSnapshots _ => none
  | noGroupRules => none
  | packetOverflow _ => none

end Failure

end FlowAudit.Command
