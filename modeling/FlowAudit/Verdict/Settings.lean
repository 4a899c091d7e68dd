import FlowAudit.Decimal.Layout

set_option autoImplicit false

/-!
Settings of the verdict and the faults that make them unusable. The first fault in a fixed order
counts; a comparison with a NaN never holds, so a NaN is always a fault.
-/
namespace FlowAudit.Verdict

structure Settings where
  /-- Duplicate factors above it are not trusted. -/
  duplicateThreshold : Float := 0.15
  /-- Posteriors above it are closed-loop. -/
  closedLoopThreshold : Float := 0.99
  /-- Posteriors below it are spoofed. -/
  spoofedThreshold : Float := 0.01
  /-- The chance that a dropped packet stays unseen by noise alone. -/
  closedLoopBaseRate : Float := 0.05
  /-- Fewer droppable packets give no decision. -/
  minDroppable : UInt64 := 0
  /-- Fewer dropped packets give no decision. -/
  minDropped : UInt64 := 0

/-- The settings that are probabilities. -/
inductive Rate where
  | closedLoopBaseRate
  | closedLoopThreshold
  | spoofedThreshold
  deriving DecidableEq, Repr

def Rate.name : Rate → String
  | closedLoopBaseRate => "closed_loop_base_rate"
  | closedLoopThreshold => "closed_loop_threshold"
  | spoofedThreshold => "spoofed_threshold"

inductive SettingsFault where
  | outOfUnitRange (rate : Rate) (value : Float)
  | badDuplicateThreshold (value : Float)
  | invertedThresholds (spoofed closedLoop : Float)

def SettingsFault.message : SettingsFault → String
  | outOfUnitRange rate value =>
      s!"{rate.name} must lie strictly between 0 and 1, got {Decimal.messageText value}"
  | badDuplicateThreshold value =>
      s!"duplicate threshold must be positive, got {Decimal.messageText value}"
  | invertedThresholds spoofed closedLoop =>
      s!"spoofed threshold {Decimal.messageText spoofed} must be below " ++
        s!"closed-loop threshold {Decimal.messageText closedLoop}"

namespace Settings

def rate (settings : Settings) : Rate → Float
  | .closedLoopBaseRate => settings.closedLoopBaseRate
  | .closedLoopThreshold => settings.closedLoopThreshold
  | .spoofedThreshold => settings.spoofedThreshold

def inUnitRange (value : Float) : Bool :=
  0 < value && value < 1

/-- The fault of a rate that does not lie strictly between zero and one. -/
def rateFault? (settings : Settings) (rate : Rate) : Option SettingsFault :=
  if inUnitRange (settings.rate rate) then none
  else some (.outOfUnitRange rate (settings.rate rate))

def duplicateFault? (settings : Settings) : Option SettingsFault :=
  if 0 < settings.duplicateThreshold && settings.duplicateThreshold.isFinite then none
  else some (.badDuplicateThreshold settings.duplicateThreshold)

def orderFault? (settings : Settings) : Option SettingsFault :=
  if settings.closedLoopThreshold ≤ settings.spoofedThreshold then
    some (.invertedThresholds settings.spoofedThreshold settings.closedLoopThreshold)
  else none

/-- The first fault of the settings: the rates in their order, the duplicate threshold, the order
of the thresholds. -/
def fault? (settings : Settings) : Option SettingsFault :=
  (settings.rateFault? .closedLoopBaseRate).or <|
    (settings.rateFault? .closedLoopThreshold).or <|
      (settings.rateFault? .spoofedThreshold).or <|
        settings.duplicateFault?.or settings.orderFault?

theorem fault?_default : ({} : Settings).fault?.isNone = true := by
  decide

end Settings

end FlowAudit.Verdict
