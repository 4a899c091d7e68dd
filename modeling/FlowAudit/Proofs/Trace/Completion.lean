import FlowAudit.Proofs.Trace.Times
import FlowAudit.Trace.Completion
import Mathlib.Data.List.Forall2

set_option autoImplicit false

/-!
Which flows have completion times. A flow has one just when its start and the time of its ack spell
doubles; it then adds their difference, and it is listed as incomplete otherwise. Flows of traces
lack a completion time only for want of the ack (`completionTimes_of_traced`).
-/
namespace FlowAudit.Trace

open FlowAudit.Flow

/-- The doubles that the start and the time of an ack spell. -/
structure IsSpan (record : Record) (ack : UInt32) (start finish : Float) : Prop where
  start : Decimal.float? record.start.toList = some start
  finish : ∃ time, record.ackTime? ack = some time ∧ Decimal.float? time.toList = some finish

theorem seconds_eq_ok_iff (key : Key) (text : String) (value : Float) :
    seconds key text = .ok value ↔ Decimal.float? text.toList = some value := by
  unfold seconds
  split
  · rename_i found reads
    rw [reads, Except.ok.injEq, Option.some.injEq]
  · rename_i unread
    simp [unread]

theorem completionTime_eq_ok_iff (key : Key) (record : Record) (ack : UInt32) (sample : Float) :
    completionTime key record ack = .ok sample ↔
      ∃ start finish, IsSpan record ack start finish ∧ sample = finish - start := by
  unfold completionTime
  constructor
  · intro success
    split at success
    · cases success
    · rename_i time noted
      obtain ⟨finish, ends, success⟩ := bind_eq_ok_iff.mp success
      obtain ⟨start, begins, success⟩ := bind_eq_ok_iff.mp success
      rw [seconds_eq_ok_iff] at ends begins
      exact ⟨start, finish, ⟨begins, time, noted, ends⟩, (Except.ok.inj success).symm⟩
  · rintro ⟨start, finish, ⟨begins, time, noted, ends⟩, rfl⟩
    rw [← seconds_eq_ok_iff key] at begins ends
    rw [noted]
    simp only [ends, begins]
    rfl

/-- The flow has a completion time at the ack. -/
def completes (ack : UInt32) (flow : Key × Record) : Bool :=
  (completionTime flow.1 flow.2 ack).isOk

theorem completes_of_eq_ok {ack : UInt32} {flow : Key × Record} {sample : Float}
    (success : completionTime flow.1 flow.2 ack = .ok sample) : completes ack flow = true := by
  rw [completes, success]
  rfl

theorem completes_of_eq_error {ack : UInt32} {flow : Key × Record} {cause : IncompleteFlow}
    (failure : completionTime flow.1 flow.2 ack = .error cause) : completes ack flow = false := by
  rw [completes, failure]
  rfl

theorem completes_iff (ack : UInt32) (flow : Key × Record) :
    completes ack flow = true ↔ ∃ start finish, IsSpan flow.2 ack start finish := by
  constructor
  · intro complete
    cases outcome : completionTime flow.1 flow.2 ack with
    | error cause =>
      rw [completes_of_eq_error outcome] at complete
      cases complete
    | ok sample =>
      obtain ⟨start, finish, span, _⟩ := (completionTime_eq_ok_iff _ _ _ _).mp outcome
      exact ⟨start, finish, span⟩
  · rintro ⟨start, finish, span⟩
    exact completes_of_eq_ok ((completionTime_eq_ok_iff _ _ _ _).mpr ⟨start, finish, span, rfl⟩)

/-! The loop over the flows -/

/-- The completion time of a flow, or else its key. -/
def flowSamples (ack : UInt32) (flow : Key × Record) : CompletionSamples :=
  match completionTime flow.1 flow.2 ack with
  | .ok time => { times := [time] }
  | .error _ => { incomplete := [flow.1] }

def CompletionSamples.append (first second : CompletionSamples) : CompletionSamples where
  times := first.times ++ second.times
  incomplete := first.incomplete ++ second.incomplete

/-- What flows add one after the other. -/
def gather (ack : UInt32) (flows : List (Key × Record)) : CompletionSamples :=
  flows.foldr (fun flow samples => (flowSamples ack flow).append samples) {}

theorem gather_cons (ack : UInt32) (flow : Key × Record) (flows : List (Key × Record)) :
    gather ack (flow :: flows) = (flowSamples ack flow).append (gather ack flows) := rfl

theorem push_eq (ack : UInt32) (samples : CompletionSamples) (flow : Key × Record) :
    samples.push ack flow = samples.append (flowSamples ack flow) := by
  rw [CompletionSamples.push, flowSamples, CompletionSamples.append]
  cases completionTime flow.1 flow.2 ack <;> simp

/-- The loop keeps what it has and adds what the flows that are left bring. -/
theorem foldl_push (ack : UInt32) (flows : List (Key × Record)) (samples : CompletionSamples) :
    flows.foldl (CompletionSamples.push ack) samples = samples.append (gather ack flows) := by
  induction flows generalizing samples with
  | nil => simp [gather, CompletionSamples.append]
  | cons flow rest ih =>
    rw [List.foldl_cons, ih, push_eq, gather_cons]
    simp only [CompletionSamples.append, List.append_assoc]

theorem completionTimesAt_eq_gather (table : Table) (ack : UInt32) :
    completionTimesAt table ack = gather ack table.flows :=
  foldl_push ack table.flows {}

theorem times_gather (ack : UInt32) (flows : List (Key × Record)) :
    List.Forall₂
      (fun flow sample => ∃ start finish, IsSpan flow.2 ack start finish ∧ sample = finish - start)
      (flows.filter (completes ack)) (gather ack flows).times := by
  induction flows with
  | nil => exact .nil
  | cons flow rest ih =>
    rw [gather_cons, flowSamples]
    cases outcome : completionTime flow.1 flow.2 ack with
    | error cause =>
      rw [List.filter_cons_of_neg (by simp [completes_of_eq_error outcome])]
      exact ih
    | ok sample =>
      rw [List.filter_cons_of_pos (completes_of_eq_ok outcome)]
      exact .cons ((completionTime_eq_ok_iff _ _ _ _).mp outcome) ih

theorem incomplete_gather (ack : UInt32) (flows : List (Key × Record)) :
    (gather ack flows).incomplete = (flows.filter fun flow => !completes ack flow).map Prod.fst := by
  induction flows with
  | nil => rfl
  | cons flow rest ih =>
    rw [gather_cons, flowSamples, CompletionSamples.append, ih]
    cases outcome : completionTime flow.1 flow.2 ack with
    | error cause => simp [completes_of_eq_error outcome]
    | ok sample => simp [completes_of_eq_ok outcome]

/-- There is one sample for each flow that completes, in the order of the flows. -/
theorem times_completionTimesAt (table : Table) (ack : UInt32) :
    List.Forall₂
      (fun flow sample => ∃ start finish, IsSpan flow.2 ack start finish ∧ sample = finish - start)
      (table.flows.filter (completes ack)) (completionTimesAt table ack).times := by
  rw [completionTimesAt_eq_gather]
  exact times_gather ack table.flows

theorem incomplete_completionTimesAt (table : Table) (ack : UInt32) :
    (completionTimesAt table ack).incomplete =
      (table.flows.filter fun flow => !completes ack flow).map Prod.fst := by
  rw [completionTimesAt_eq_gather, incomplete_gather]

theorem exists_isSpan_of_mem_times {table : Table} {ack : UInt32} {sample : Float}
    (inside : sample ∈ (completionTimesAt table ack).times) :
    ∃ flow ∈ table.flows, ∃ start finish, IsSpan flow.2 ack start finish ∧
      sample = finish - start := by
  obtain ⟨flow, complete, spans⟩ := exists_of_forall₂ (times_completionTimesAt table ack).flip inside
  exact ⟨flow, (List.mem_filter.mp complete).1, spans⟩

theorem mem_incomplete_iff {table : Table} {flow : Key × Record} (inside : flow ∈ table.flows)
    (ack : UInt32) :
    flow.1 ∈ (completionTimesAt table ack).incomplete ↔ completes ack flow = false := by
  rw [incomplete_completionTimesAt, List.mem_map]
  constructor
  · rintro ⟨other, listed, same⟩
    -- The table has each key once, so the listed flow is the one asked for.
    rw [List.mem_filter, Bool.not_eq_true'] at listed
    have known : table.get? flow.1 = some other.2 := same ▸ Table.get?_of_mem listed.1
    have here : table.get? flow.1 = some flow.2 := Table.get?_of_mem inside
    have record := Option.some.inj (known.symm.trans here)
    rw [← listed.2, Prod.ext same record]
  · intro incomplete
    exact ⟨flow, List.mem_filter.mpr ⟨inside, by rw [incomplete]; rfl⟩, rfl⟩

theorem filter_not_mem_incomplete (table : Table) (ack : UInt32) :
    (table.flows.filter fun flow => flow.1 ∉ (completionTimesAt table ack).incomplete) =
      table.flows.filter (completes ack) := by
  apply List.filter_congr
  intro flow inside
  rw [Bool.eq_iff_iff, decide_eq_true_iff, mem_incomplete_iff inside, Bool.not_eq_false]

theorem completionTimes_eq_ok {table : Table} {settings : CompletionSettings} {packets ack : UInt32}
    (bound : settings.completionAck packets = some ack) :
    completionTimes table settings packets = .ok (completionTimesAt table ack) := by
  rw [completionTimes, bound]

/-! Tables of traces -/

section

variable {table : Table} (traced : IsTraced table) {flow : Key × Record}
  (inside : flow ∈ table.flows) {ack : UInt32}

include traced inside

theorem IsTraced.finite_of_isSpan {start finish : Float} (span : IsSpan flow.2 ack start finish) :
    start.isFinite = true ∧ finish.isFinite = true := by
  obtain ⟨begins, later⟩ := traced.allTimes.of_mem inside
  obtain ⟨time, noted, ends⟩ := span.finish
  exact ⟨(Decimal.spellsFinite_iff span.start).mp begins,
    (Decimal.spellsFinite_iff ends).mp (later ack time noted)⟩

theorem IsTraced.completes_eq : completes ack flow = (flow.2.ackTime? ack).isSome := by
  obtain ⟨begins, later⟩ := traced.allTimes.of_mem inside
  rw [Bool.eq_iff_iff, completes_iff, Option.isSome_iff_exists]
  constructor
  · rintro ⟨start, finish, span⟩
    obtain ⟨time, noted, _⟩ := span.finish
    exact ⟨time, noted⟩
  · rintro ⟨time, noted⟩
    obtain ⟨start, reads, _⟩ := begins
    obtain ⟨finish, ends, _⟩ := later ack time noted
    exact ⟨start, finish, reads, time, noted, ends⟩

theorem IsTraced.ne_badTimestamp (key : Key) (text : String) :
    completionTime flow.1 flow.2 ack ≠ .error (.badTimestamp key text) := by
  intro failure
  have incomplete := completes_of_eq_error failure
  rw [traced.completes_eq inside, Option.isSome_eq_false_iff, Option.isNone_iff_eq_none] at incomplete
  rw [completionTime, incomplete] at failure
  cases failure

end

theorem IsTraced.filter_completes {table : Table} (traced : IsTraced table) (ack : UInt32) :
    table.flows.filter (completes ack) =
      table.flows.filter fun flow => (flow.2.ackTime? ack).isSome := by
  apply List.filter_congr
  intro flow inside
  exact traced.completes_eq inside

/-- The flows of a traced table that lack the ack are the incomplete ones, and every other flow has
the difference of two finite times for its sample. -/
theorem completionTimes_of_traced {table : Table} (traced : IsTraced table)
    (settings : CompletionSettings) (packets : UInt32) {ack : UInt32}
    (bound : settings.completionAck packets = some ack) :
    (∀ flow ∈ table.flows, ∀ key text,
      completionTime flow.1 flow.2 ack ≠ .error (.badTimestamp key text)) ∧
    ∃ samples, completionTimes table settings packets = .ok samples ∧
      samples.incomplete =
        (table.flows.filter fun flow => (flow.2.ackTime? ack).isNone).map Prod.fst ∧
      List.Forall₂
        (fun flow sample => ∃ start finish, IsSpan flow.2 ack start finish ∧
          start.isFinite = true ∧ finish.isFinite = true ∧
          sample = finish - start ∧ sample.isNaN = false)
        (table.flows.filter fun flow => (flow.2.ackTime? ack).isSome) samples.times := by
  refine ⟨?_, completionTimesAt table ack, completionTimes_eq_ok bound, ?_, ?_⟩
  · intro flow inside
    exact traced.ne_badTimestamp inside
  · rw [incomplete_completionTimesAt]
    apply congrArg (List.map Prod.fst)
    apply List.filter_congr
    intro flow inside
    rw [traced.completes_eq inside, Option.not_isSome]
  · have samples := times_completionTimesAt table ack
    rw [traced.filter_completes] at samples
    -- A pair of the relation alone does not say that its flow is one of the table.
    refine forall₂_imp_of_mem ?_ samples
    rintro flow kept sample ⟨start, finish, span, difference⟩
    have finite := traced.finite_of_isSpan (List.mem_filter.mp kept).1 span
    have number := Decimal.isNaN_sub finite.2 finite.1
    exact ⟨start, finish, span, finite.1, finite.2, difference, difference ▸ number⟩

/-- Two traces merged, written and read again; the later flow never saw its last ack. -/
theorem completionTimes_of_two_traces :
    let early := reconstruct .control ["- 1.5 ns3::TcpHeader (5 > 6 [SYN] Win=9".toList,
      "r 1e2 ns3::TcpHeader (6 > 5 [ACK] Ack=1026 Win=9".toList]
    let late := reconstruct .control ["- .5 ns3::TcpHeader (7 > 8 [SYN] Win=9".toList,
      "r 2 ns3::TcpHeader (8 > 7 [ACK] Ack=1025 Win=9".toList]
    let table := early.table.merge late.table
    let settings : CompletionSettings := {}
    Table.ofInterchange table.interchange = .ok table ∧
      settings.completionAck 1 = some 1026 ∧
      ∃ samples, completionTimes table settings 1 = .ok samples ∧
        samples.incomplete = [⟨7, 8⟩] ∧ samples.times = [98.5] := by
  intro early late table settings
  have read := Table.ofInterchange_interchange table
  have traced : IsTraced table :=
    .reread (.merged (.reconstructed _ _) (.reconstructed _ _)) read
  have bound : settings.completionAck 1 = some 1026 := by decide
  have missing : (table.flows.filter fun flow => (flow.2.ackTime? 1026).isNone).map Prod.fst =
      [⟨7, 8⟩] := by decide +kernel
  have complete : (table.flows.filter fun flow => (flow.2.ackTime? 1026).isSome).map
      (fun flow => (flow.2.start, flow.2.ackTime? 1026)) = [("1.5", some "1e2")] := by
    decide +kernel
  obtain ⟨_, samples, success, incomplete, spans⟩ :=
    completionTimes_of_traced traced settings 1 bound
  refine ⟨read, bound, samples, success, incomplete.trans missing, ?_⟩
  obtain ⟨flow, single, times⟩ := List.map_eq_singleton_iff.mp complete
  obtain ⟨begins, noted⟩ := Prod.mk.inj times
  rw [single, List.forall₂_cons_left_iff] at spans
  obtain ⟨sample, rest, ⟨start, finish, span, _, _, difference, _⟩, none, same⟩ := spans
  obtain ⟨time, found, ends⟩ := span.finish
  obtain rfl : "1e2" = time := Option.some.inj (noted.symm.trans found)
  have first : Decimal.float? "1.5".toList = some 1.5 := by decide +kernel
  have last : Decimal.float? "1e2".toList = some 100 := by decide +kernel
  obtain rfl : 1.5 = start := Option.some.inj (first.symm.trans (begins ▸ span.start))
  obtain rfl : 100 = finish := Option.some.inj (last.symm.trans ends)
  have value : (100 - 1.5 : Float) = 98.5 := by decide +kernel
  rw [same, List.forall₂_nil_left_iff.mp none, difference, value]

end FlowAudit.Trace
