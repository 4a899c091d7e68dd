import FlowAudit.Profile.Settings
import FlowAudit.Text.Cut

set_option autoImplicit false

/-!
Analysis profiles: overrides of the default settings, and the rules that sort result files into
groups by their names.
-/
namespace FlowAudit.Profile

open FlowAudit.Trace

/-- Settings that replace a default where they are given. -/
structure Overrides where
  controlPortStart : Option UInt16 := none
  controlPortEnd : Option UInt16 := none
  duplicateThreshold : Option Float := none
  closedLoopThreshold : Option Float := none
  spoofedThreshold : Option Float := none
  closedLoopBaseRate : Option Float := none
  minDroppable : Option UInt64 := none
  minDropped : Option UInt64 := none
  segmentSize : Option UInt32 := none
  ackOffset : Option UInt32 := none

def Overrides.apply (overrides : Overrides) (settings : Settings) : Settings where
  controlPorts := {
    first := overrides.controlPortStart.getD settings.controlPorts.first
    last := overrides.controlPortEnd.getD settings.controlPorts.last }
  verdict := {
    duplicateThreshold :=
      overrides.duplicateThreshold.getD settings.verdict.duplicateThreshold
    closedLoopThreshold :=
      overrides.closedLoopThreshold.getD settings.verdict.closedLoopThreshold
    spoofedThreshold := overrides.spoofedThreshold.getD settings.verdict.spoofedThreshold
    closedLoopBaseRate :=
      overrides.closedLoopBaseRate.getD settings.verdict.closedLoopBaseRate
    minDroppable := overrides.minDroppable.getD settings.verdict.minDroppable
    minDropped := overrides.minDropped.getD settings.verdict.minDropped }
  completion := {
    segmentSize := overrides.segmentSize.getD settings.completion.segmentSize
    ackOffset := overrides.ackOffset.getD settings.completion.ackOffset }

/-- Files whose name holds the pattern belong to the label. -/
structure GroupRule where
  label : String
  pattern : String
  deriving DecidableEq, Repr

/-- The text that the name of a result file holds unless a profile says otherwise. -/
def defaultFileMark : String := "perf_"

end FlowAudit.Profile

namespace FlowAudit

open FlowAudit.Profile FlowAudit.Text

structure Profile where
  overrides : Overrides := {}
  /-- Only files whose name holds this text are sorted. -/
  fileMark : Option String := none
  groups : List GroupRule := []

namespace Profile

/-- The default settings with the overrides of the profile. -/
def settings (profile : Profile) : Settings :=
  profile.overrides.apply {}

/-- The labels of the rules, each once, in the order of their first rules. -/
def labels (profile : Profile) : List String :=
  (profile.groups.map GroupRule.label).eraseDups

def takesFile (profile : Profile) (name : List Char) : Bool :=
  occurs (profile.fileMark.getD defaultFileMark).toList name

/-- The label of the first rule whose pattern the name holds. -/
def label? (profile : Profile) (name : List Char) : Option String :=
  if profile.takesFile name then
    (profile.groups.find? fun rule => occurs rule.pattern.toList name).map GroupRule.label
  else none

end Profile

end FlowAudit
