import FlowAudit.Command.Result
import FlowAudit.Proofs.Attempts
import FlowAudit.Proofs.Command.Files
import FlowAudit.Proofs.Flow.Interchange
import FlowAudit.Proofs.Flow.Merge

set_option autoImplicit false

/-!
Extraction from several traces. The result is the table that the traces give when each is reconstructed
by itself and all are merged in their order; a trace that comes again adds nothing. What stops an
extraction is decided in one order: the profile, the control range, the first trace without text.
-/
namespace FlowAudit.Command

open FlowAudit.Flow FlowAudit.Trace

/-- The tables of traces, each by itself, merged from the first to the last. -/
def mergedTraces (control : PortRange) (texts : List (List Char)) : Table :=
  (texts.map fun text => (reconstructText control text).table).foldl Table.merge Table.empty

theorem mergedTraces_repeated (control : PortRange) {before after : List (List Char)}
    {text : List Char} (inside : text ∈ before) :
    mergedTraces control (before ++ text :: after) = mergedTraces control (before ++ after) := by
  simp only [mergedTraces, List.map_append, List.map_cons]
  exact Table.foldl_merge_repeated (List.mem_map_of_mem inside)

/-- What stops an extraction. Nothing is asked of the traces when the profile or the control range
fails, nor of those after the first trace without text. -/
inductive ExtractionStops (files : Files) (config : Option String) (traces : List String) :
    Failure → Prop where
  | profile {failure : Failure} (failed : files.profile config = .error failure) :
      ExtractionStops files config traces failure
  | controlRange {profile : Profile} (read : files.profile config = .ok profile)
      (empty : profile.settings.controlPorts.isEmpty = true) :
      ExtractionStops files config traces (.badControlRange ⟨profile.settings.controlPorts⟩)
  | trace {profile : Profile} {before after : List String} {path : String} {cause : FileError}
      (read : files.profile config = .ok profile)
      (filled : profile.settings.controlPorts.isEmpty = false)
      (split : traces = before ++ path :: after)
      (earlier : ∀ other ∈ before, ∃ text, files.HasText other text)
      (failed : files.HasNoText path cause) :
      ExtractionStops files config traces (.unreadable .trace path cause)

theorem check_mapError (control : PortRange) :
    control.check.mapError Failure.badControlRange =
      if control.isEmpty then .error (.badControlRange ⟨control⟩) else .ok () := by
  unfold PortRange.check
  split <;> rfl

namespace Files

variable (files : Files) (control : PortRange)

theorem traceTable_of_hasText {path : String} {text : List Char} (holds : files.HasText path text) :
    files.traceTable control path = .ok (reconstructText control text).table := by
  rw [traceTable, readAs, (text_eq_ok_iff files path text).mpr holds]
  rfl

theorem traceTable_eq_error_iff (path : String) (failure : Failure) :
    files.traceTable control path = .error failure ↔
      ∃ cause, files.HasNoText path cause ∧ .unreadable .trace path cause = failure := by
  simp only [traceTable, readAs, bind_eq_error_iff, mapError_eq_error_iff, text_eq_error_iff, pure,
    Except.pure, reduceCtorEq, and_false, exists_false, or_false]

theorem exists_traceTable_iff (path : String) :
    (∃ table, files.traceTable control path = .ok table) ↔ ∃ text, files.HasText path text := by
  simp only [traceTable, readAs, bind_eq_ok_iff, mapError_eq_ok_iff, text_eq_ok_iff, pure, Except.pure,
    Except.ok.injEq]
  constructor
  · rintro ⟨table, text, holds, _⟩
    exact ⟨text, holds⟩
  · rintro ⟨text, holds⟩
    exact ⟨_, text, holds, rfl⟩

theorem extract_of_hasText {traces : List String} {texts : String → List Char}
    (filled : control.isEmpty = false) (holds : ∀ path ∈ traces, files.HasText path (texts path)) :
    files.extract control traces = .ok (mergedTraces control (traces.map texts)) := by
  have tables := mapM_eq_ok_map fun path inside =>
    traceTable_of_hasText files control (holds path inside)
  rw [extract, check_mapError, filled, tables, mergedTraces, List.map_map]
  rfl

theorem extract_eq_error_iff (traces : List String) (failure : Failure) :
    files.extract control traces = .error failure ↔
      control.isEmpty = true ∧ .badControlRange ⟨control⟩ = failure ∨
        control.isEmpty = false ∧ ∃ before path after, traces = before ++ path :: after ∧
          (∀ other ∈ before, ∃ text, files.HasText other text) ∧
          ∃ cause, files.HasNoText path cause ∧ .unreadable .trace path cause = failure := by
  rw [extract, check_mapError]
  cases control.isEmpty with
  | true => simp [bind, Except.bind]
  | false =>
    simp only [bind_eq_error_iff, mapM_eq_error_iff, exists_traceTable_iff, traceTable_eq_error_iff]
    simp [pure, Except.pure]

end Files

section Request

variable (files : Files) (config output : Option String) (traces : List String)

theorem result_of_hasText {profile : Profile} {texts : String → List Char}
    (read : files.profile config = .ok profile)
    (filled : profile.settings.controlPorts.isEmpty = false)
    (holds : ∀ path ∈ traces, files.HasText path (texts path)) :
    Request.result ⟨.extract traces, config, output⟩ files =
      .ok (mergedTraces profile.settings.controlPorts (traces.map texts)).interchange := by
  rw [Request.result, read]
  change (files.extract profile.settings.controlPorts traces).map Table.interchange = _
  rw [files.extract_of_hasText _ filled holds]
  rfl

theorem result_eq_error_iff (failure : Failure) :
    Request.result ⟨.extract traces, config, output⟩ files = .error failure ↔
      ExtractionStops files config traces failure := by
  simp only [Request.result, Task.result, bind_eq_error_iff, map_eq_error_iff,
    Files.extract_eq_error_iff]
  constructor
  · rintro (failed | ⟨profile, read, ⟨empty, rfl⟩ | ⟨filled, before, path, after, split, earlier, cause,
      failed, rfl⟩⟩)
    · exact .profile failed
    · exact .controlRange read empty
    · exact .trace read filled split earlier failed
  · intro stops
    cases stops with
    | profile failed => exact Or.inl failed
    | controlRange read empty => exact Or.inr ⟨_, read, Or.inl ⟨empty, rfl⟩⟩
    | trace read filled split earlier failed =>
      exact Or.inr ⟨_, read, Or.inr ⟨filled, _, _, _, split, earlier, _, failed, rfl⟩⟩

/-- Extraction writes the merged table of its traces, which reads back and does not change when a trace
is named again. It fails exactly as `ExtractionStops` says. -/
theorem extraction_merges_traces :
    (∀ (profile : Profile) (texts : String → List Char), files.profile config = .ok profile →
      profile.settings.controlPorts.isEmpty = false →
      (∀ path ∈ traces, files.HasText path (texts path)) →
      ∃ merged, merged = mergedTraces profile.settings.controlPorts (traces.map texts) ∧
        Request.result ⟨.extract traces, config, output⟩ files = .ok merged.interchange ∧
        Table.ofInterchange merged.interchange = .ok merged ∧
        ∀ before path after, traces = before ++ path :: after → path ∈ before →
          Request.result ⟨.extract (before ++ after), config, output⟩ files =
            .ok merged.interchange) ∧
    ∀ failure, Request.result ⟨.extract traces, config, output⟩ files = .error failure ↔
      ExtractionStops files config traces failure := by
  refine ⟨?_, result_eq_error_iff files config output traces⟩
  intro profile texts read filled holds
  refine ⟨_, rfl, result_of_hasText files config output traces read filled holds,
    Table.ofInterchange_interchange _, ?_⟩
  rintro before path after rfl again
  have others : ∀ other ∈ before ++ after, files.HasText other (texts other) := by
    intro other inside
    apply holds
    rcases List.mem_append.mp inside with inside | inside
    · exact List.mem_append_left _ inside
    · exact List.mem_append_right _ (List.mem_cons_of_mem _ inside)
  rw [result_of_hasText files config output _ read filled others, List.map_append, List.map_append,
    List.map_cons, mergedTraces_repeated _ (List.mem_map_of_mem again)]

end Request

/-- Three arguments of which the last repeats the first, and three of which the second names no file. -/
theorem extraction_of_repeated_trace :
    let opening := "- 1.0 ns3::TcpHeader (5 > 6 [SYN] Win=9\n".toList
    let later := "- 3.0 ns3::TcpHeader (5 > 6 [SYN] Win=9\nr 4.0 ns3::TcpHeader (6 > 5 [ACK] Ack=7 Win=9\n".toList
    let texts := fun path => if path = "first" then opening else later
    let files : Files := fun path =>
      if path = "gone" then {} else { bytes := .ok (String.ofList (texts path)).toUTF8 }
    let merged := mergedTraces .control [opening, later, opening]
    merged.keys = [⟨5, 6⟩] ∧ merged.start? ⟨5, 6⟩ = some "1.0" ∧
      merged.ackTime? ⟨5, 6⟩ 7 = some "4.0" ∧
      Request.result ⟨.extract ["first", "second", "first"], none, none⟩ files = .ok merged.interchange ∧
      Request.result ⟨.extract ["first", "second"], none, none⟩ files = .ok merged.interchange ∧
      Request.result ⟨.extract ["first", "gone", "second"], none, none⟩ files =
        .error (.unreadable .trace "gone" .missing) := by
  intro opening later texts files merged
  have holds : ∀ path ∈ ["first", "second", "first"], files.HasText path (texts path) := by
    intro path inside
    have there : path ≠ "gone" := by
      rintro rfl
      revert inside
      decide
    exact congrArg Finding.bytes (if_neg there)
  obtain ⟨success, _⟩ := extraction_merges_traces files none none ["first", "second", "first"]
  obtain ⟨table, same, result, _, repeated⟩ := success {} texts rfl rfl holds
  rw [same] at result repeated
  obtain ⟨_, failures⟩ := extraction_merges_traces files none none ["first", "gone", "second"]
  have views : merged.keys = [⟨5, 6⟩] ∧ merged.start? ⟨5, 6⟩ = some "1.0" ∧
      merged.ackTime? ⟨5, 6⟩ 7 = some "4.0" := by decide +kernel
  obtain ⟨keys, start, time⟩ := views
  refine ⟨keys, start, time, result, ?_, ?_⟩
  · exact repeated ["first", "second"] "first" [] rfl (by decide)
  · rw [failures]
    have split : ["first", "gone", "second"] = ["first"] ++ "gone" :: ["second"] := rfl
    refine .trace rfl rfl split ?_ (.unreadable rfl)
    intro other inside
    obtain rfl := List.mem_singleton.mp inside
    exact ⟨opening, holds "first" List.mem_cons_self⟩

end FlowAudit.Command
