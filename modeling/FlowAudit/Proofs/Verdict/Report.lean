import FlowAudit.Verdict.Report

set_option autoImplicit false

/-!
Reports put together. Extending a report adds the points of the other behind its own, so it does not
matter which reports are joined first, and the report on a row of snapshots is that of its parts joined
(`foldl_extend_ofSnapshots`). A report that came about by recording, assessing and extending is the one that
its points make (`Reachable.eq_foldl_addPoint`), which keeps the tallies in step.
-/
namespace FlowAudit.Verdict

/-- The point of a snapshot that was assessed. -/
def Evaluator.point (evaluator : Evaluator) (snapshot : Snapshot) : Point :=
  ⟨snapshot.droppable, snapshot.dropped, evaluator.classify snapshot⟩

namespace Tallies

theorem count_empty (verdict : Classification) : ({} : Tallies).count verdict = 0 := by
  cases verdict <;> rfl

theorem total_empty : ({} : Tallies).total = 0 := rfl

theorem total_bump (tallies : Tallies) (verdict : Classification) :
    (tallies.bump verdict).total = tallies.total + 1 := by
  cases verdict <;> simp only [bump, total] <;> omega

end Tallies

namespace Report

theorem points_foldl_addPoint (points : List Point) (report : Report) :
    (points.foldl addPoint report).points = report.points ++ points := by
  induction points generalizing report with
  | nil => exact (List.append_nil _).symm
  | cons point rest ih =>
    rw [List.foldl_cons, ih, addPoint, List.append_assoc, List.singleton_append]

theorem foldl_extend_eq_foldl_addPoint (reports : List Report) (report : Report) :
    reports.foldl extend report = (reports.flatMap Report.points).foldl addPoint report := by
  induction reports generalizing report with
  | nil => rfl
  | cons next rest ih => rw [List.foldl_cons, ih, extend, List.flatMap_cons, List.foldl_append]

/-- Reports that are added one after the other may be joined beforehand. -/
theorem foldl_extend (reports : List Report) (report : Report) :
    reports.foldl extend report = report.extend (reports.foldl extend {}) := by
  rw [extend, foldl_extend_eq_foldl_addPoint, foldl_extend_eq_foldl_addPoint, points_foldl_addPoint]
  rfl

theorem ofSnapshots_eq_foldl_addPoint (evaluator : Evaluator) (snapshots : List Snapshot) :
    ofSnapshots evaluator snapshots = (snapshots.map evaluator.point).foldl addPoint {} :=
  List.foldl_map.symm

theorem points_ofSnapshots (evaluator : Evaluator) (snapshots : List Snapshot) :
    (ofSnapshots evaluator snapshots).points = snapshots.map evaluator.point := by
  rw [ofSnapshots_eq_foldl_addPoint, points_foldl_addPoint]
  rfl

theorem foldl_extend_ofSnapshots (evaluator : Evaluator) (documents : List (List Snapshot)) :
    (documents.map (ofSnapshots evaluator)).foldl extend {} = ofSnapshots evaluator documents.flatten := by
  have points : (documents.map (ofSnapshots evaluator)).flatMap Report.points =
      documents.flatten.map evaluator.point := by
    rw [List.flatMap_map, List.map_flatten, List.flatMap]
    exact congrArg List.flatten (List.map_congr_left fun document _ => points_ofSnapshots evaluator document)
  rw [foldl_extend_eq_foldl_addPoint, points, ofSnapshots_eq_foldl_addPoint]

theorem extend_assoc (first second third : Report) :
    (first.extend second).extend third = first.extend (second.extend third) := by
  rw [extend, extend, extend, extend, points_foldl_addPoint, List.foldl_append]

theorem ofSnapshots_append (evaluator : Evaluator) (first second : List Snapshot) :
    ofSnapshots evaluator (first ++ second) =
      (ofSnapshots evaluator first).extend (ofSnapshots evaluator second) := by
  rw [ofSnapshots_eq_foldl_addPoint, List.map_append, List.foldl_append,
    ← ofSnapshots_eq_foldl_addPoint, extend, points_ofSnapshots]

/-! Tallies -/

theorem count_foldl_addPoint (points : List Point) (report : Report) (verdict : Classification) :
    (points.foldl addPoint report).tallies.count verdict =
      report.tallies.count verdict + points.countP (·.classification = verdict) := by
  induction points generalizing report with
  | nil => rfl
  | cons point rest ih =>
    rw [List.foldl_cons, ih, addPoint, Tallies.count_bump, List.countP_cons]
    simp only [decide_eq_true_eq]
    omega

theorem total_foldl_addPoint (points : List Point) (report : Report) :
    (points.foldl addPoint report).tallies.total = report.tallies.total + points.length := by
  induction points generalizing report with
  | nil => rfl
  | cons point rest ih =>
    rw [List.foldl_cons, ih, addPoint, Tallies.total_bump, List.length_cons]
    omega

/-- Reports that come about by operations on reports. -/
inductive Reachable : Report → Prop
  | empty : Reachable {}
  | record {report : Report} (reached : Reachable report) (snapshot : Snapshot)
      (verdict : Classification) : Reachable (report.record snapshot verdict)
  | extend {report other : Report} (reached : Reachable report) (reached' : Reachable other) :
      Reachable (report.extend other)
  | assessed (evaluator : Evaluator) (snapshots : List Snapshot) :
      Reachable (ofSnapshots evaluator snapshots)

/-- The points of a report say all about it. -/
theorem Reachable.eq_foldl_addPoint {report : Report} (reached : Reachable report) :
    report.points.foldl addPoint {} = report := by
  induction reached with
  | empty => rfl
  | record _ snapshot verdict ih =>
    rw [Report.record, addPoint, List.foldl_append, ih]
    rfl
  | extend _ _ ih _ =>
    rw [Report.extend, points_foldl_addPoint, List.foldl_append, ih]
  | assessed evaluator snapshots =>
    rw [points_ofSnapshots, ofSnapshots_eq_foldl_addPoint]

/-- Whatever becomes of a report, its tallies count its points by their verdicts. Reports are joined like
the rows of snapshots they are on, in which each point stands at the place of its snapshot. -/
theorem tallies_count_points :
    (∀ report, Reachable report →
      (∀ verdict, report.tallies.count verdict = report.points.countP (·.classification = verdict)) ∧
      report.tallies.total = report.points.length ∧
      report.extend {} = report ∧ extend {} report = report) ∧
    (∀ first second third : Report,
      (first.extend second).extend third = first.extend (second.extend third)) ∧
    ∀ evaluator,
      (∀ first second, ofSnapshots evaluator (first ++ second) =
        (ofSnapshots evaluator first).extend (ofSnapshots evaluator second)) ∧
      ∀ (snapshots : List Snapshot) (index : Nat),
        (ofSnapshots evaluator snapshots).points[index]? =
          snapshots[index]?.map evaluator.point := by
  refine ⟨?_, extend_assoc, fun evaluator => ⟨ofSnapshots_append evaluator, ?_⟩⟩
  · intro report reached
    have whole := reached.eq_foldl_addPoint
    refine ⟨?_, ?_, rfl, whole⟩
    · intro verdict
      have count := count_foldl_addPoint report.points {} verdict
      rwa [whole, Tallies.count_empty, Nat.zero_add] at count
    · have total := total_foldl_addPoint report.points {}
      rwa [whole, Tallies.total_empty, Nat.zero_add] at total
  · intro snapshots index
    rw [points_ofSnapshots, List.getElem?_map]

/-- A report is joined with itself and goes on. -/
theorem tallies_of_doubled_report :
    let doubled := (record {} ⟨9, 4, 0, 1, 2⟩ .spoofed).extend (record {} ⟨9, 4, 0, 1, 2⟩ .spoofed)
    let report := doubled.record ⟨5, 5, 0, 0, 0⟩ .noDecision
    report.tallies.count .spoofed = 2 ∧ report.tallies.total = 3 ∧ extend {} report = report := by
  have once : Reachable (record {} ⟨9, 4, 0, 1, 2⟩ .spoofed) := .record .empty _ _
  have reached := Reachable.record (once.extend once) ⟨5, 5, 0, 0, 0⟩ .noDecision
  obtain ⟨counts, total, _, same⟩ := tallies_count_points.1 _ reached
  exact ⟨counts .spoofed, total, same⟩

end Report

end FlowAudit.Verdict
