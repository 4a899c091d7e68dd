import FlowAudit.Verdict.Evaluator

set_option autoImplicit false

/-!
Reports on drop events: a point for each event that was assessed, and how often each verdict came
up.
-/
namespace FlowAudit.Verdict

/-- One assessed event, placed by its packet counts. -/
structure Point where
  droppable : UInt64
  dropped : UInt64
  classification : Classification
  deriving DecidableEq, Repr

structure Tallies where
  closedLoop : Nat := 0
  spoofed : Nat := 0
  duplicateExceeded : Nat := 0
  noDecision : Nat := 0
  deriving DecidableEq, Repr

namespace Tallies

def count (tallies : Tallies) : Classification → Nat
  | .closedLoop => tallies.closedLoop
  | .spoofed => tallies.spoofed
  | .duplicateExceeded => tallies.duplicateExceeded
  | .noDecision => tallies.noDecision

def bump (tallies : Tallies) : Classification → Tallies
  | .closedLoop => { tallies with closedLoop := tallies.closedLoop + 1 }
  | .spoofed => { tallies with spoofed := tallies.spoofed + 1 }
  | .duplicateExceeded => { tallies with duplicateExceeded := tallies.duplicateExceeded + 1 }
  | .noDecision => { tallies with noDecision := tallies.noDecision + 1 }

def total (tallies : Tallies) : Nat :=
  tallies.closedLoop + tallies.spoofed + tallies.duplicateExceeded + tallies.noDecision

theorem count_bump (tallies : Tallies) (bumped counted : Classification) :
    (tallies.bump bumped).count counted =
      tallies.count counted + if bumped = counted then 1 else 0 := by
  cases bumped <;> cases counted <;> rfl

end Tallies

structure Report where
  points : List Point := []
  tallies : Tallies := {}
  deriving DecidableEq, Repr

namespace Report

def addPoint (report : Report) (point : Point) : Report where
  points := report.points ++ [point]
  tallies := report.tallies.bump point.classification

def record (report : Report) (snapshot : Snapshot) (classification : Classification) : Report :=
  report.addPoint ⟨snapshot.droppable, snapshot.dropped, classification⟩

/-- Adds the points of another report after those of the first. -/
def extend (report other : Report) : Report :=
  other.points.foldl addPoint report

def ofSnapshots (evaluator : Evaluator) (snapshots : List Snapshot) : Report :=
  snapshots.foldl (fun report snapshot => report.record snapshot (evaluator.classify snapshot)) {}

end Report

namespace Point

def toJson (point : Point) : Json.Value :=
  .object [
    Json.Value.member "droppable" (.ofNat point.droppable.toNat),
    Json.Value.member "dropped" (.ofNat point.dropped.toNat),
    Json.Value.member "classification" (.ofText point.classification.label)]

end Point

def Tallies.toJson (tallies : Tallies) : Json.Value :=
  .object (Classification.all.map fun classification =>
    Json.Value.member classification.label (.ofNat (tallies.count classification)))

def Report.toJson (report : Report) : Json.Value :=
  .object [
    Json.Value.member "points" (.array (report.points.map Point.toJson)),
    Json.Value.member "tallies" report.tallies.toJson]

end FlowAudit.Verdict
