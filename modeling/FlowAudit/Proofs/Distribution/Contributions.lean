import FlowAudit.Proofs.Distribution.CompletionReport
import FlowAudit.Proofs.Profile.Labels
import Mathlib.Algebra.BigOperators.Group.List.Basic
import Mathlib.Algebra.GroupWithZero.Nat

set_option autoImplicit false

/-!
Reports on tables that have labels. Each flow with a completion time is counted in the group of its
label and in no other, and each other flow is counted as incomplete (`countsFlows_of_filled`). The
order of the tables leaves no mark (`ofTables_congr`).
-/
namespace FlowAudit.Distribution

open FlowAudit.Flow FlowAudit.Profile FlowAudit.Trace

structure LabelledTable where
  label : String
  table : Table

/-- The table of a text that is one of flow records, under its label. -/
def LabelledTable.ofText? (labelled : String × List Char) : Option LabelledTable :=
  match Table.ofInterchange labelled.2 with
  | .ok table => some ⟨labelled.1, table⟩
  | .error _ => none

theorem LabelledTable.ofText?_eq_some_iff (labelled : String × List Char) (entry : LabelledTable) :
    ofText? labelled = some entry ↔
      Table.ofInterchange labelled.2 = .ok entry.table ∧ labelled.1 = entry.label := by
  unfold ofText?
  cases entry
  cases Table.ofInterchange labelled.2 <;> simp [and_comm]

/-- What a table adds to a report at an ack number. -/
def LabelledTable.contribution (ack : UInt32) (entry : LabelledTable) : Contribution :=
  ⟨entry.label, completionTimesAt entry.table ack⟩

/-- The samples that some tables add for a label. -/
def samplesOf (ack : UInt32) (tables : List LabelledTable) (label : String) : SampleGroup :=
  sampleGroup (tables.map (LabelledTable.contribution ack)) label

/-- The number of flows with a completion time under a label. -/
def completedFlows (ack : UInt32) (tables : List LabelledTable) (label : String) : Nat :=
  ((tables.filter fun entry => entry.label = label).map fun entry =>
    entry.table.flows.countP (completes ack)).sum

def unfinishedFlows (ack : UInt32) (tables : List LabelledTable) : Nat :=
  (tables.map fun entry => entry.table.flows.countP fun flow => !completes ack flow).sum

theorem length_times (table : Table) (ack : UInt32) :
    (completionTimesAt table ack).times.length = table.flows.countP (completes ack) := by
  rw [← (times_completionTimesAt table ack).length_eq, List.countP_eq_length_filter]

theorem length_incomplete (table : Table) (ack : UInt32) :
    (completionTimesAt table ack).incomplete.length =
      table.flows.countP fun flow => !completes ack flow := by
  rw [incomplete_completionTimesAt, List.length_map, List.countP_eq_length_filter]

theorem length_samplesOf (ack : UInt32) (tables : List LabelledTable) (label : String) :
    (samplesOf ack tables label).samples.length = completedFlows ack tables label := by
  simp only [samplesOf, sampleGroup, completedFlows]
  induction tables with
  | nil => rfl
  | cons entry rest ih =>
    rw [List.map_cons, List.flatMap_cons, List.length_append, ih, List.filter_cons]
    by_cases same : entry.label = label <;>
      simp [LabelledTable.contribution, same, length_times]

theorem samplesOf_ne_nil_iff (ack : UInt32) (tables : List LabelledTable) (label : String) :
    (samplesOf ack tables label).samples ≠ [] ↔ 0 < completedFlows ack tables label := by
  rw [← length_samplesOf, List.length_pos_iff]

/-- Every sample of the tables is a number. -/
def AllTimesNumbers (ack : UInt32) (tables : List LabelledTable) : Prop :=
  ∀ entry ∈ tables, AllNumbers (completionTimesAt entry.table ack).times

instance (ack : UInt32) (tables : List LabelledTable) : Decidable (AllTimesNumbers ack tables) :=
  inferInstanceAs (Decidable (∀ entry ∈ tables, AllNumbers (completionTimesAt entry.table ack).times))

theorem AllTimesNumbers.samplesOf {ack : UInt32} {tables : List LabelledTable}
    (numbers : AllTimesNumbers ack tables) (label : String) :
    AllNumbers (samplesOf ack tables label).samples := by
  intro sample inside
  obtain ⟨contribution, given, taken⟩ := mem_sampleGroup inside
  obtain ⟨entry, known, rfl⟩ := List.mem_map.mp given
  exact numbers entry known sample taken

/-- Counts that are taken label by label take in every item once. -/
theorem sum_count_by_label {α : Type} {labels : List String} (once : labels.Nodup) (label : α → String)
    (count : α → Nat) {items : List α} (known : ∀ item ∈ items, label item ∈ labels) :
    (labels.map fun wanted =>
      ((items.filter fun item => label item = wanted).map count).sum).sum =
      (items.map count).sum := by
  induction items with
  | nil => simp
  | cons item rest ih =>
    have parts := List.forall_mem_cons.mp known
    have split : ∀ wanted,
        (((item :: rest).filter fun item => label item = wanted).map count).sum =
          (if wanted = label item then count item else 0) +
            ((rest.filter fun item => label item = wanted).map count).sum := by
      intro wanted
      by_cases same : label item = wanted
      · simp [same]
      · simp [same, Ne.symm same]
    have here : (labels.map fun wanted => if wanted = label item then count item else 0).sum =
        count item := by
      rw [List.sum_map_ite, List.filter_eq, List.count_eq_one_of_mem once parts.1]
      simp
    simp only [split]
    rw [List.sum_map_add, here, ih parts.2, List.map_cons, List.sum_cons]

/-- Under labels that take in all tables no flow is lost and none is counted twice. -/
theorem sum_completedFlows_add_unfinishedFlows {labels : List String} (once : labels.Nodup)
    {tables : List LabelledTable} (known : ∀ entry ∈ tables, entry.label ∈ labels) (ack : UInt32) :
    (labels.map (completedFlows ack tables)).sum + unfinishedFlows ack tables =
      (tables.map fun entry => entry.table.size).sum := by
  have counted := sum_count_by_label once LabelledTable.label
    (fun entry => entry.table.flows.countP (completes ack)) known
  have parts : ∀ entry : LabelledTable, entry.table.size =
      entry.table.flows.countP (completes ack) +
        entry.table.flows.countP fun flow => !completes ack flow := by
    intro entry
    rw [Table.size, List.countP_eq_length_filter, List.countP_eq_length_filter,
      ← List.length_eq_length_filter_add]
  simp only [parts, List.sum_map_add, ← counted]
  rfl

namespace CompletionReport

variable (profile : Profile) (packets ack : UInt32) (tables : List LabelledTable)

/-- The report on tables: a curve for each label in the order of the rules. -/
def ofTables : Except GroupError CompletionReport :=
  (distributions (profile.labels.map (samplesOf ack tables))).map fun groups =>
    ⟨packets, ack, unfinishedFlows ack tables, groups⟩

/-- The groups of the report are the labels of the rules. Each counts the flows with a completion time
under its label, and with the incomplete flows these are all flows of the tables. -/
structure CountsFlows (report : CompletionReport) : Prop where
  labels : ListsFirsts (profile.groups.map GroupRule.label) (report.groups.map GroupEcdf.label)
  counts : ∀ group ∈ report.groups, group.sampleCount = completedFlows ack tables group.label
  total : (report.groups.map GroupEcdf.sampleCount).sum + report.incompleteFlows =
    (tables.map fun entry => entry.table.size).sum

theorem ofFiles_eq_ofTables {files : List RecordFile} (gives : files.filterMap (fun file =>
      file.contribution? profile ack) = tables.map (LabelledTable.contribution ack)) :
    ofFiles profile packets ack files = ofTables profile packets ack tables := by
  have incomplete : ((tables.map (LabelledTable.contribution ack)).flatMap fun contribution =>
      contribution.samples.incomplete).length = unfinishedFlows ack tables := by
    rw [List.flatMap_map, List.length_flatMap]
    simp only [LabelledTable.contribution, length_incomplete]
    rfl
  simp only [ofFiles, gives, incomplete]
  rfl

/-- A report on numbers does not depend on the order of the tables. -/
theorem ofTables_congr {tables other : List LabelledTable} (same : tables.Perm other)
    (numbers : ∀ label ∈ profile.labels, AllNumbers (samplesOf ack tables label).samples) :
    ofTables profile packets ack tables = ofTables profile packets ack other := by
  have groups : distributions (profile.labels.map (samplesOf ack tables)) =
      distributions (profile.labels.map (samplesOf ack other)) := by
    rw [distributions, distributions, List.mapM_map, List.mapM_map]
    apply mapM_congr
    intro label listed
    exact SampleGroup.distribution_congr (numbers label listed) rfl
      ((same.map (LabelledTable.contribution ack)).flatMap_right _)
  have incomplete : unfinishedFlows ack tables = unfinishedFlows ack other :=
    (same.map _).sum_eq
  rw [ofTables, ofTables, groups, incomplete]

variable {profile ack tables}

theorem numbers_of_ofTables {report : CompletionReport}
    (success : ofTables profile packets ack tables = .ok report) :
    ∀ label ∈ profile.labels, AllNumbers (samplesOf ack tables label).samples := by
  obtain ⟨groups, success, _⟩ := map_eq_ok_iff.mp success
  intro label listed
  obtain ⟨group, _, curve⟩ := exists_of_mapM_eq_ok success (List.mem_map_of_mem listed)
  exact ((SampleGroup.distribution_eq_ok_iff _ _).mp curve).2.1

theorem ofTables_of_filled (numbers : AllTimesNumbers ack tables)
    (filled : ∀ label ∈ profile.labels, 0 < completedFlows ack tables label) :
    ofTables profile packets ack tables =
      .ok ⟨packets, ack, unfinishedFlows ack tables,
        profile.labels.map fun label => (samplesOf ack tables label).curve⟩ := by
  have groups : distributions (profile.labels.map (samplesOf ack tables)) =
      .ok (profile.labels.map fun label => (samplesOf ack tables label).curve) := by
    rw [distributions, List.mapM_map]
    apply mapM_eq_ok_map
    intro label listed
    exact (SampleGroup.distribution_eq_ok_iff _ _).mpr
      ⟨(samplesOf_ne_nil_iff ack tables label).mpr (filled label listed), numbers.samplesOf label, rfl⟩
  rw [ofTables, groups]
  rfl

theorem countsFlows_of_filled (known : ∀ entry ∈ tables, entry.label ∈ profile.labels)
    (numbers : AllTimesNumbers ack tables)
    (filled : ∀ label ∈ profile.labels, 0 < completedFlows ack tables label) :
    ∃ report, ofTables profile packets ack tables = .ok report ∧
      CountsFlows profile ack tables report := by
  refine ⟨_, ofTables_of_filled packets numbers filled, ?_, ?_, ?_⟩
  · simpa [Function.comp_def, SampleGroup.curve, samplesOf, sampleGroup] using
      listsFirsts_labels profile
  · intro group listed
    obtain ⟨label, _, rfl⟩ := List.mem_map.mp listed
    exact length_samplesOf ack tables label
  · rw [← sum_completedFlows_add_unfinishedFlows (listsFirsts_labels profile).nodup known ack,
      List.map_map]
    simp only [Function.comp_def, SampleGroup.curve, length_samplesOf]

/-- The first rule whose label has no sample decides which label is named. -/
theorem ofTables_of_empty (numbers : AllTimesNumbers ack tables) {earlier later : List GroupRule}
    {rule : GroupRule} (split : profile.groups = earlier ++ rule :: later)
    (filled : ∀ other ∈ earlier, 0 < completedFlows ack tables other.label)
    (empty : completedFlows ack tables rule.label = 0) :
    ofTables profile packets ack tables = .error (.emptyGroup rule.label) := by
  have labels : profile.groups.map GroupRule.label =
      earlier.map GroupRule.label ++ rule.label :: later.map GroupRule.label := by
    rw [split, List.map_append, List.map_cons]
  have new : rule.label ∉ earlier.map GroupRule.label := by
    intro again
    obtain ⟨other, inside, same⟩ := List.mem_map.mp again
    have some := filled other inside
    rw [same, empty] at some
    exact Nat.lt_irrefl 0 some
  obtain ⟨before, after, listed, sooner⟩ := (listsFirsts_labels profile).exists_split labels new
  have groups : distributions (profile.labels.map (samplesOf ack tables)) =
      .error (.emptyGroup rule.label) := by
    rw [distributions, List.mapM_map]
    refine mapM_eq_error_iff.mpr ⟨before, rule.label, after, listed, ?_, ?_⟩
    · intro label inside
      obtain ⟨other, known, rfl⟩ := List.mem_map.mp (sooner label inside)
      exact ⟨_, (SampleGroup.distribution_eq_ok_iff _ _).mpr
        ⟨(samplesOf_ne_nil_iff ack tables other.label).mpr (filled other known),
          numbers.samplesOf other.label, rfl⟩⟩
    · apply SampleGroup.distribution_of_empty
      exact List.eq_nil_of_length_eq_zero ((length_samplesOf ack tables rule.label).trans empty)
  rw [ofTables, groups]
  rfl

end CompletionReport

end FlowAudit.Distribution
