import FlowAudit.Distribution.CompletionReport
import FlowAudit.Proofs.Distribution.Ecdf
import FlowAudit.Proofs.Trace.Completion

set_option autoImplicit false

/-!
Reports on flows whose times are not all finite. Completion asks of a time only that it spells a double,
so a flow may be unusable and still add a sample. `completion_of_finite` says which unusable flows are
listed as incomplete, and when no report fails on a NaN.
-/
namespace FlowAudit.Trace

open FlowAudit.Flow

/-- The start or the time of the ack does not spell a finite double. -/
def CarriesUnusable (ack : UInt32) (record : Record) : Prop :=
  ¬ Decimal.SpellsFinite record.start ∨
    ∃ time ∈ record.ackTime? ack, ¬ Decimal.SpellsFinite time

instance (ack : UInt32) (record : Record) : Decidable (CarriesUnusable ack record) :=
  inferInstanceAs (Decidable (_ ∨ _))

/-- If the start and the time of the ack both spell doubles, these are finite. -/
def FiniteSpan (ack : UInt32) (record : Record) : Prop :=
  ∀ start finish, IsSpan record ack start finish → start.isFinite = true ∧ finish.isFinite = true

theorem carriesUnusable_iff {record : Record} {ack : UInt32} {start finish : Float}
    (span : IsSpan record ack start finish) :
    CarriesUnusable ack record ↔ ¬ (start.isFinite = true ∧ finish.isFinite = true) := by
  obtain ⟨time, noted, ends⟩ := span.finish
  rw [CarriesUnusable, Decimal.spellsFinite_iff span.start, Classical.not_and_iff_not_or_not]
  simp only [noted, Option.mem_some_iff, exists_eq_left', Decimal.spellsFinite_iff ends]

theorem finiteSpan_iff (ack : UInt32) (flow : Key × Record) :
    FiniteSpan ack flow.2 ↔ (CarriesUnusable ack flow.2 → completes ack flow = false) := by
  rw [← Bool.not_eq_true, completes_iff]
  constructor
  · rintro finite unusable ⟨start, finish, span⟩
    exact (carriesUnusable_iff span).mp unusable (finite start finish span)
  · intro listed start finish span
    by_contra infinite
    exact listed ((carriesUnusable_iff span).mpr infinite) ⟨start, finish, span⟩

theorem isNaN_of_finiteSpan {table : Table} {ack : UInt32}
    (finite : ∀ flow ∈ table.flows, FiniteSpan ack flow.2) {sample : Float}
    (inside : sample ∈ (completionTimesAt table ack).times) : sample.isNaN = false := by
  obtain ⟨flow, known, start, finish, span, rfl⟩ := exists_isSpan_of_mem_times inside
  obtain ⟨begins, ends⟩ := finite flow known start finish span
  exact Decimal.isNaN_sub ends begins

end FlowAudit.Trace

namespace FlowAudit.Distribution

open FlowAudit.Flow FlowAudit.Trace

theorem mem_sampleGroup {contributions : List Contribution} {label : String} {sample : Float}
    (inside : sample ∈ (sampleGroup contributions label).samples) :
    ∃ contribution ∈ contributions, sample ∈ contribution.samples.times := by
  obtain ⟨contribution, given, taken⟩ := List.mem_flatMap.mp inside
  split at taken
  · exact ⟨contribution, given, taken⟩
  · cases taken

theorem contribution?_eq_some {file : RecordFile} {profile : Profile} {ack : UInt32}
    {contribution : Contribution} (success : file.contribution? profile ack = some contribution) :
    ∃ table, Table.ofInterchange file.text = .ok table ∧
      contribution.samples = completionTimesAt table ack := by
  unfold RecordFile.contribution? at success
  split at success
  · rename_i label table _ reads
    obtain rfl := Option.some.inj success
    exact ⟨table, reads, rfl⟩
  · cases success

/-- A report fails on a NaN only when a file adds one. -/
theorem exists_isNaN_of_ofFiles {profile : Profile} {packets ack : UInt32} {files : List RecordFile}
    {index : Nat} (failure : CompletionReport.ofFiles profile packets ack files = .error (.nan index)) :
    ∃ file ∈ files, ∃ table, Table.ofInterchange file.text = .ok table ∧
      ∃ sample ∈ (completionTimesAt table ack).times, sample.isNaN = true := by
  have outcome := map_eq_error_iff.mp failure
  obtain ⟨group, listed, failed⟩ := exists_of_distributions_eq_error outcome
  obtain ⟨sample, inside, isNaN⟩ := SampleGroup.exists_isNaN_of_eq_error failed
  obtain ⟨label, _, rfl⟩ := List.mem_map.mp listed
  obtain ⟨contribution, given, inside⟩ := mem_sampleGroup inside
  obtain ⟨file, held, adds⟩ := List.mem_filterMap.mp given
  obtain ⟨table, reads, samples⟩ := contribution?_eq_some adds
  exact ⟨file, held, table, reads, sample, samples ▸ inside, isNaN⟩

/-- Each flow is listed as incomplete or adds a sample, and an unusable one is listed unless its two
times spell doubles. Where no unusable flow escapes so, no sample is NaN and no report fails on one. -/
theorem completion_of_finite (settings : CompletionSettings) (packets : UInt32) {ack : UInt32}
    (bound : settings.completionAck packets = some ack) :
    (∀ table : Table, ∃ samples, completionTimes table settings packets = .ok samples ∧
      List.Forall₂
        (fun flow sample => ∃ start finish, IsSpan flow.2 ack start finish ∧ sample = finish - start)
        (table.flows.filter fun flow => flow.1 ∉ samples.incomplete) samples.times ∧
      (∀ flow ∈ table.flows,
        (CarriesUnusable ack flow.2 → flow.1 ∈ samples.incomplete) ↔ FiniteSpan ack flow.2) ∧
      ((∀ flow ∈ table.flows, FiniteSpan ack flow.2) →
        ∀ sample ∈ samples.times, sample.isNaN = false)) ∧
    ∀ (profile : Profile) (files : List RecordFile),
      (∀ file ∈ files, ∀ table, Table.ofInterchange file.text = .ok table →
        ∀ flow ∈ table.flows, FiniteSpan ack flow.2) →
      ∀ index, CompletionReport.ofFiles profile packets ack files ≠ .error (.nan index) := by
  constructor
  · intro table
    refine ⟨completionTimesAt table ack, completionTimes_eq_ok bound, ?_, ?_, ?_⟩
    · rw [filter_not_mem_incomplete]
      exact times_completionTimesAt table ack
    · intro flow inside
      rw [mem_incomplete_iff inside, finiteSpan_iff]
    · intro finite sample inside
      exact isNaN_of_finiteSpan finite inside
  · intro profile files finite index failure
    obtain ⟨file, held, table, reads, sample, inside, isNaN⟩ := exists_isNaN_of_ofFiles failure
    have number := isNaN_of_finiteSpan (finite file held table reads) inside
    rw [isNaN] at number
    cases number

/-- A flow whose start spells no double at all is unusable and does no harm. -/
theorem completion_of_soon :
    let table := (((Table.empty.openFlow ⟨1, 2⟩ "soon").recordAck ⟨1, 2⟩ 2 "1.0").openFlow
      ⟨3, 4⟩ "1.5").recordAck ⟨3, 4⟩ 2 "4e0"
    let settings : CompletionSettings := {}
    let profile : Profile := { groups := [⟨"all", ""⟩] }
    settings.completionAck 0 = some 2 ∧
      (∃ samples, completionTimes table settings 0 = .ok samples ∧ ⟨1, 2⟩ ∈ samples.incomplete ∧
        ∀ sample ∈ samples.times, sample.isNaN = false) ∧
      ∀ index, CompletionReport.ofFiles profile 0 2 [⟨"perf_1", table.interchange⟩] ≠
        .error (.nan index) := by
  intro table settings profile
  have bound : settings.completionAck 0 = some 2 := by decide
  have harmless : ∀ flow ∈ table.flows, CarriesUnusable 2 flow.2 → completes 2 flow = false := by
    decide +kernel
  have finite : ∀ flow ∈ table.flows, FiniteSpan 2 flow.2 := by
    intro flow inside
    exact (finiteSpan_iff 2 flow).mpr (harmless flow inside)
  have unusable : ∃ flow ∈ table.flows, flow.1 = ⟨1, 2⟩ ∧ CarriesUnusable 2 flow.2 := by
    decide +kernel
  obtain ⟨tables, reports⟩ := completion_of_finite settings 0 bound
  refine ⟨bound, ?_, ?_⟩
  · obtain ⟨samples, success, _, listed, numbers⟩ := tables table
    obtain ⟨flow, inside, key, carries⟩ := unusable
    exact ⟨samples, success, key ▸ (listed flow inside).mpr (finite flow inside) carries,
      numbers finite⟩
  · apply reports
    intro file held again reads
    obtain rfl := List.mem_singleton.mp held
    rw [Table.ofInterchange_interchange] at reads
    exact Except.ok.inj reads ▸ finite

/-- A flow that starts at NaN is not listed; its sample is NaN, and the report fails on it though
another file has a sound flow. -/
theorem completion_not_finite :
    let table := (Table.empty.openFlow ⟨1, 2⟩ "nan").recordAck ⟨1, 2⟩ 2 "1.0"
    let sound := (Table.empty.openFlow ⟨1, 2⟩ "0.5").recordAck ⟨1, 2⟩ 2 "1.0"
    let settings : CompletionSettings := {}
    let profile : Profile := { groups := [⟨"all", ""⟩] }
    let files : List RecordFile := [⟨"perf_1", sound.interchange⟩, ⟨"perf_2", table.interchange⟩]
    Table.ofInterchange table.interchange = .ok table ∧
      settings.completionAck 0 = some 2 ∧
      (∀ flow ∈ table.flows, CarriesUnusable 2 flow.2) ∧
      (∃ samples, completionTimes table settings 0 = .ok samples ∧ samples.incomplete = [] ∧
        samples.times.map Float.isNaN = [true]) ∧
      CompletionReport.ofFiles profile 0 2 files = .error (.nan 1) := by
  intro table sound settings profile files
  have read := Table.ofInterchange_interchange table
  have bound : settings.completionAck 0 = some 2 := by decide
  refine ⟨read, bound, ?_, ?_, ?_⟩
  · decide +kernel
  · exact ⟨completionTimesAt table 2, completionTimes_eq_ok bound, by decide +kernel,
      by decide +kernel⟩
  · have failure : (match CompletionReport.ofFiles profile 0 2 files with
        | .error cause => some cause
        | .ok _ => none) = some (.nan 1) := by decide +kernel
    split at failure
    · rename_i cause outcome
      rw [outcome, Option.some.inj failure]
    · cases failure

end FlowAudit.Distribution
