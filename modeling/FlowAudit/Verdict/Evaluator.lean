import FlowAudit.Verdict.Classification
import FlowAudit.Verdict.Settings
import FlowAudit.Verdict.Snapshot

set_option autoImplicit false

/-!
Assessment of drop events. If a host answers its drops, each dropped packet that was never seen
again is noise, with the base rate as its chance; if traffic is spoofed, each dropped packet that
was sent once more is a duplicate, with the duplicate factor as its chance. The posterior of the
first hypothesis is compared strictly with two thresholds.
-/
namespace FlowAudit.Verdict

/-- The elementary functions that a posterior is computed with. -/
structure Elementary where
  power : Float → Float → Float
  log : Float → Float
  exp : Float → Float

def Elementary.native : Elementary :=
  ⟨Float.pow, Float.log, Float.exp⟩

/-- Settings without a fault, and the functions to compute with. -/
structure Evaluator where
  settings : Settings
  functions : Elementary
  faultless : settings.fault?.isNone = true

structure Assessment where
  classification : Classification
  /-- None when no droppable packet was left undropped. -/
  duplicateFactor : Option Float
  /-- None when the test was not made. -/
  posterior : Option Float

namespace Assessment

def undecided : Assessment :=
  ⟨.noDecision, none, none⟩

end Assessment

/-- The share of undropped packets that came back as duplicates. Without any duplicate one is
assumed, so that the factor is never zero. -/
def duplicateFactor? (snapshot : Snapshot) : Option Float :=
  if snapshot.dropped < snapshot.droppable then
    let undropped := snapshot.droppable - snapshot.dropped
    let duplicates := if snapshot.duplicate = 0 then 1 else snapshot.duplicate
    some (duplicates.toFloat / undropped.toFloat)
  else none

def smallestNormal : Float := Float.ofBits 0x0010000000000000

/-- Whether a double is finite and has its full precision. -/
def isNormal (value : Float) : Bool :=
  smallestNormal ≤ value.abs && value.isFinite

def share (part other : Float) : Float :=
  part / (part + other)

def larger (first second : Float) : Float :=
  if first < second then second else first

/-- The share of one likelihood in the sum of both, from their logarithms. Both are divided by the
larger one before they are added, so that the sum is not below one. -/
def shareOfLogs (functions : Elementary) (part other : Float) : Float :=
  let top := larger part other
  share (functions.exp (part - top)) (functions.exp (other - top))

/-- The posterior of the closed-loop hypothesis. While the sum of the likelihoods is a normal
double the plain formula decides; else it is taken from the logarithms. -/
def posterior (functions : Elementary) (base : Float) (notSeen : UInt64) (factor : Float)
    (retransmitted : UInt64) : Float :=
  let closed := functions.power base notSeen.toFloat
  let spoofed := functions.power factor retransmitted.toFloat
  if isNormal (closed + spoofed) then share closed spoofed
  else
    shareOfLogs functions (functions.log base * notSeen.toFloat)
      (functions.log factor * retransmitted.toFloat)

namespace Evaluator

/-- The evaluator with the default settings. -/
def stock : Evaluator :=
  ⟨{}, Elementary.native, Settings.fault?_default⟩

def ofSettings (settings : Settings) : Except SettingsFault Evaluator :=
  match faultless : settings.fault? with
  | some fault => .error fault
  | none => .ok ⟨settings, Elementary.native, by rw [faultless]; rfl⟩

/-- Whether a snapshot has the packets that a decision needs. -/
def meetsMinimums (evaluator : Evaluator) (snapshot : Snapshot) : Bool :=
  evaluator.settings.minDroppable ≤ snapshot.droppable &&
    evaluator.settings.minDropped ≤ snapshot.dropped

def classifyPosterior (evaluator : Evaluator) (value : Float) : Classification :=
  if evaluator.settings.closedLoopThreshold < value then .closedLoop
  else if value < evaluator.settings.spoofedThreshold then .spoofed
  else .noDecision

/-- The assessment of a snapshot with this duplicate factor. -/
def assessFactor (evaluator : Evaluator) (snapshot : Snapshot) (factor : Float) : Assessment :=
  if evaluator.settings.duplicateThreshold < factor then
    ⟨.duplicateExceeded, some factor, none⟩
  else
    let value := posterior evaluator.functions evaluator.settings.closedLoopBaseRate
      snapshot.notSeenDropped factor snapshot.retransmittedDropped
    ⟨evaluator.classifyPosterior value, some factor, some value⟩

def assess (evaluator : Evaluator) (snapshot : Snapshot) : Assessment :=
  if evaluator.meetsMinimums snapshot then
    match duplicateFactor? snapshot with
    | some factor => evaluator.assessFactor snapshot factor
    | none => .undecided
  else .undecided

def classify (evaluator : Evaluator) (snapshot : Snapshot) : Classification :=
  (evaluator.assess snapshot).classification

end Evaluator

end FlowAudit.Verdict
