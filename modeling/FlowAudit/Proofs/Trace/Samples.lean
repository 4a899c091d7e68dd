import FlowAudit.Proofs.Decimal.Literal
import FlowAudit.Proofs.Trace.Completion
import Mathlib.Algebra.GroupWithZero.Nat

set_option autoImplicit false

/-!
How completion divides the flows of a table. Each flow either adds a sample or is listed as incomplete,
in the order of the table, and neither depends on the other flows (`completionTimes_divides`). Only an ack
number that is too large for one stops the whole.
-/
namespace FlowAudit.Trace

open FlowAudit.Flow

/-- The ack number of the last byte, whatever its size. -/
def CompletionSettings.lastByte (settings : CompletionSettings) (packets : UInt32) : Nat :=
  packets.toNat * settings.segmentSize.toNat + settings.ackOffset.toNat

/-! Checked arithmetic -/

/-- The product of two numbers of half the bits wraps around nowhere. -/
theorem toNat_wideProduct (first second : UInt32) :
    (first.toUInt64 * second.toUInt64).toNat = first.toNat * second.toNat := by
  have bound : first.toNat * second.toNat < 2 ^ 32 * 2 ^ 32 :=
    Nat.mul_lt_mul'' first.toNat_lt second.toNat_lt
  rw [UInt64.toNat_mul, UInt32.toNat_toUInt64, UInt32.toNat_toUInt64]
  exact Nat.mod_eq_of_lt bound

theorem shiftRight_eq_zero_iff (number : UInt64) : number >>> 32 = 0 ↔ number.toNat < 2 ^ 32 := by
  rw [← UInt64.toNat_inj, UInt64.toNat_shiftRight]
  change number.toNat >>> 32 = 0 ↔ _
  rw [Nat.shiftRight_eq_div_pow, Nat.div_eq_zero_iff_lt (by decide)]

theorem checkedMul_eq_some_iff (first second product : UInt32) :
    checkedMul first second = some product ↔ product.toNat = first.toNat * second.toNat := by
  simp only [checkedMul, shiftRight_eq_zero_iff, Option.ite_none_right_eq_some, Option.some.injEq,
    ← UInt32.toNat_inj, UInt64.toNat_toUInt32, toNat_wideProduct]
  constructor
  · rintro ⟨bound, same⟩
    rw [← same, Nat.mod_eq_of_lt bound]
  · intro same
    have bound : first.toNat * second.toNat < 2 ^ 32 := same ▸ product.toNat_lt
    exact ⟨bound, (Nat.mod_eq_of_lt bound).trans same.symm⟩

theorem checkedAdd_eq_some_iff (first second sum : UInt32) :
    checkedAdd first second = some sum ↔ sum.toNat = first.toNat + second.toNat := by
  have small := first.toNat_lt
  have small' := second.toNat_lt
  have bound := sum.toNat_lt
  simp only [checkedAdd, Option.ite_none_left_eq_some, Option.some.injEq, UInt32.lt_iff_toNat_lt,
    ← UInt32.toNat_inj, UInt32.toNat_add]
  omega

/-- What is known of a checked number when it is one says also when it is none. -/
theorem eq_none_iff_of_eq_some_iff {checked : Option UInt32} {value : Nat}
    (known : ∀ number, checked = some number ↔ number.toNat = value) :
    checked = none ↔ 2 ^ 32 ≤ value := by
  rw [Option.eq_none_iff_forall_ne_some]
  simp only [ne_eq, known]
  constructor
  · intro absent
    by_contra small
    exact absent (UInt32.ofNatLT value (Nat.not_le.mp small)) rfl
  · intro large number same
    exact absurd number.toNat_lt (Nat.not_lt.mpr (same ▸ large))

theorem completionAck_eq_some_iff (settings : CompletionSettings) (packets ack : UInt32) :
    settings.completionAck packets = some ack ↔ ack.toNat = settings.lastByte packets := by
  simp only [CompletionSettings.completionAck, Option.bind_eq_bind, Option.bind_eq_some_iff,
    checkedMul_eq_some_iff, checkedAdd_eq_some_iff, CompletionSettings.lastByte]
  constructor
  · rintro ⟨payload, product, sum⟩
    rw [sum, product]
  · intro sum
    -- The sum fits, and the payload is no larger than the sum.
    have bound : packets.toNat * settings.segmentSize.toNat < 2 ^ 32 :=
      Nat.lt_of_le_of_lt (Nat.le_add_right _ _) (sum ▸ ack.toNat_lt)
    exact ⟨UInt32.ofNatLT _ bound, rfl, sum⟩

theorem completionAck_eq_none_iff (settings : CompletionSettings) (packets : UInt32) :
    settings.completionAck packets = none ↔ 2 ^ 32 ≤ settings.lastByte packets :=
  eq_none_iff_of_eq_some_iff (completionAck_eq_some_iff settings packets)

/-! What flows add -/

theorem gather_append (ack : UInt32) (first second : List (Key × Record)) :
    gather ack (first ++ second) = (gather ack first).append (gather ack second) := by
  induction first with
  | nil => rfl
  | cons flow rest ih =>
    rw [List.cons_append, gather_cons, gather_cons, ih]
    simp only [CompletionSamples.append, List.append_assoc]

/-! Which flows are listed -/

/-- A flow is listed when the ack is not on its timeline, or when one of the two times that are looked at
is not a float literal; other acks and their times do not matter. -/
theorem completes_eq_false_iff (ack : UInt32) (flow : Key × Record) :
    completes ack flow = false ↔
      flow.2.ackTime? ack = none ∨ ¬Decimal.IsLiteral flow.2.start.toList ∨
        ∃ time ∈ flow.2.ackTime? ack, ¬Decimal.IsLiteral time.toList := by
  rw [← Bool.not_eq_true, completes_iff]
  constructor
  · intro incomplete
    by_contra sound
    simp only [not_or, not_exists, not_and, not_not] at sound
    obtain ⟨known, begins, ends⟩ := sound
    obtain ⟨time, noted⟩ := Option.ne_none_iff_exists'.mp known
    obtain ⟨start, begins⟩ := Option.isSome_iff_exists.mp ((Decimal.isLiteral_iff _).mp begins)
    obtain ⟨finish, ends⟩ :=
      Option.isSome_iff_exists.mp ((Decimal.isLiteral_iff _).mp (ends time noted))
    exact incomplete ⟨start, finish, begins, time, noted, ends⟩
  · rintro faulty ⟨start, finish, begins, time, noted, ends⟩
    rcases faulty with absent | unread | ⟨other, found, unread⟩
    · rw [noted] at absent
      cases absent
    · rw [← Decimal.float?_eq_none_iff, begins] at unread
      cases unread
    · obtain rfl : time = other := Option.some.inj (noted.symm.trans found)
      rw [← Decimal.float?_eq_none_iff, ends] at unread
      cases unread

/-- The samples and the incomplete keys divide the flows between them, both in the order of the table. A
sample is the time of the ack less the start. -/
structure DividesFlows (table : Table) (ack : UInt32) (samples : CompletionSamples) : Prop where
  total : samples.times.length + samples.incomplete.length = table.size
  times : List.Forall₂
    (fun flow sample => completionTime flow.1 flow.2 ack = .ok sample ∧
      ∃ start finish, IsSpan flow.2 ack start finish ∧ sample = finish - start)
    (table.flows.filter (completes ack)) samples.times
  incomplete : samples.incomplete =
    (table.flows.filter fun flow => !completes ack flow).map Prod.fst
  incomplete_sublist : samples.incomplete.Sublist table.keys
  mem_incomplete_iff : ∀ flow ∈ table.flows, flow.1 ∈ samples.incomplete ↔
    flow.2.ackTime? ack = none ∨ ¬Decimal.IsLiteral flow.2.start.toList ∨
      ∃ time ∈ flow.2.ackTime? ack, ¬Decimal.IsLiteral time.toList

theorem dividesFlows_completionTimesAt (table : Table) (ack : UInt32) :
    DividesFlows table ack (completionTimesAt table ack) := by
  have times := times_completionTimesAt table ack
  have incomplete := incomplete_completionTimesAt table ack
  refine ⟨?_, times.imp ?_, incomplete, ?_, ?_⟩
  · have whole := List.length_eq_countP_add_countP (completes ack) (l := table.flows)
    simp only [Bool.not_eq_true, Bool.decide_eq_false] at whole
    rw [← times.length_eq, incomplete, List.length_map, ← List.countP_eq_length_filter,
      ← List.countP_eq_length_filter, ← whole, Table.size]
  · intro flow sample spans
    exact ⟨(completionTime_eq_ok_iff flow.1 flow.2 ack sample).mpr spans, spans⟩
  · rw [incomplete]
    exact List.filter_sublist.map Prod.fst
  · intro flow inside
    rw [mem_incomplete_iff inside, completes_eq_false_iff]

/-- Completion fails just when the ack number of the last byte does not fit. Otherwise every flow is in one
of the two lists, and the flows before and after it add the same whatever stands in its place. -/
theorem completionTimes_divides (settings : CompletionSettings) (packets : UInt32) :
    (∀ table, completionTimes table settings packets = .error ⟨packets⟩ ↔
      2 ^ 32 ≤ settings.lastByte packets) ∧
    (settings.lastByte packets < 2 ^ 32 → ∃ ack : UInt32, ack.toNat = settings.lastByte packets ∧
      (∀ table, ∃ samples, completionTimes table settings packets = .ok samples ∧
        DividesFlows table ack samples) ∧
      ∀ before after, ∃ front back : CompletionSamples, ∀ (table : Table) flow,
        table.flows = before ++ flow :: after →
          completionTimes table settings packets =
            .ok (front.append ((flowSamples ack flow).append back))) := by
  constructor
  · intro table
    rw [← completionAck_eq_none_iff, completionTimes]
    cases settings.completionAck packets <;> simp
  · intro fits
    let ack : UInt32 := UInt32.ofNatLT (settings.lastByte packets) fits
    have bound : settings.completionAck packets = some ack :=
      (completionAck_eq_some_iff settings packets ack).mpr rfl
    refine ⟨ack, rfl, ?_, ?_⟩
    · intro table
      exact ⟨_, completionTimes_eq_ok bound, dividesFlows_completionTimesAt table ack⟩
    · intro before after
      refine ⟨gather ack before, gather ack after, ?_⟩
      intro table flow split
      rw [completionTimes_eq_ok bound, completionTimesAt_eq_gather, split, gather_append]
      rfl

end FlowAudit.Trace
