import FlowAudit.Proofs.Command.Run

set_option autoImplicit false

/-!
Settings that a task does not use. The result of a task depends on the settings of its own part of the
profile alone, and so does the whole run (`run_ignores_other_settings`): settings of the verdict that are
refused stop no extraction and no completion, and a control range without ports stops extractions only.
-/
namespace FlowAudit

namespace Profile

/-- The profile without its overrides for the verdict. -/
def withDefaultVerdict (profile : Profile) : Profile :=
  { profile with overrides := { profile.overrides with
      duplicateThreshold := none
      closedLoopThreshold := none
      spoofedThreshold := none
      closedLoopBaseRate := none
      minDroppable := none
      minDropped := none } }

/-- The profile without its overrides for the control ports. -/
def withDefaultControl (profile : Profile) : Profile :=
  { profile with overrides := { profile.overrides with
      controlPortStart := none
      controlPortEnd := none } }

/-- Files are sorted alike where the marks and the rules are the same. -/
theorem label?_congr {first second : Profile}
    (mark : second.fileMark.getD defaultFileMark = first.fileMark.getD defaultFileMark)
    (groups : second.groups = first.groups) (name : List Char) : second.label? name = first.label? name := by
  rw [label?, label?, takesFile, takesFile, mark, groups]

end Profile

namespace Command

open FlowAudit.Profile

/-- The profiles agree on what the task uses. -/
def Task.Agree (task : Task) (first second : Profile) : Prop :=
  match task with
  | .extract _ =>
      second.settings.controlPorts.first = first.settings.controlPorts.first ∧
      second.settings.controlPorts.last = first.settings.controlPorts.last
  | .classify _ =>
      second.settings.verdict.duplicateThreshold = first.settings.verdict.duplicateThreshold ∧
      second.settings.verdict.closedLoopThreshold = first.settings.verdict.closedLoopThreshold ∧
      second.settings.verdict.spoofedThreshold = first.settings.verdict.spoofedThreshold ∧
      second.settings.verdict.closedLoopBaseRate = first.settings.verdict.closedLoopBaseRate ∧
      second.settings.verdict.minDroppable = first.settings.verdict.minDroppable ∧
      second.settings.verdict.minDropped = first.settings.verdict.minDropped
  | .completion _ _ =>
      second.settings.completion.segmentSize = first.settings.completion.segmentSize ∧
      second.settings.completion.ackOffset = first.settings.completion.ackOffset ∧
      second.fileMark.getD defaultFileMark = first.fileMark.getD defaultFileMark ∧
      second.groups = first.groups

theorem completion_of_agree (files : Files) {first second : Profile} {directory : String}
    {packets : UInt32} (agree : (Task.completion directory packets).Agree first second) :
    files.completion second directory packets = files.completion first directory packets := by
  obtain ⟨size, offset, mark, groups⟩ := agree
  have tables : files.countedTables second directory = files.countedTables first directory := by
    have each : files.labelledTable? second directory = files.labelledTable? first directory := by
      funext name
      rw [Files.labelledTable?, Files.labelledTable?, Files.labelledText?, Files.labelledText?,
        label?_congr mark groups]
    rw [Files.countedTables, Files.countedTables, each]
  have labels : second.labels = first.labels := by
    rw [Profile.labels, Profile.labels, groups]
  have ack : second.settings.completion.completionAck packets =
      first.settings.completion.completionAck packets := by
    simp only [Trace.CompletionSettings.completionAck, size, offset]
  rw [Files.completion_eq, Files.completion_eq, tables, groups, ack]
  simp only [Distribution.CompletionReport.ofTables, labels]

theorem Task.result_of_agree {task : Task} {first second : Profile} (agree : task.Agree first second)
    (files : Files) : task.result files second = task.result files first := by
  cases task with
  | extract traces =>
    have ports : second.settings.controlPorts = first.settings.controlPorts :=
      (Trace.PortRange.mk.injEq _ _ _ _).mpr agree
    rw [result, result, ports]
  | classify inputs =>
    have verdict : second.settings.verdict = first.settings.verdict :=
      (Verdict.Settings.mk.injEq _ _ _ _ _ _ _ _ _ _ _ _).mpr agree
    rw [result, result, verdict]
  | completion directory packets => rw [result, result, completion_of_agree files agree]

/-- The command lines state the same request but for its profile, and the trees hold the same files but
for some that the task does not read. -/
structure SameButProfile (task : Task) (output : Option String) (words words' : List String)
    (tree tree' : FileTree) (profile profile' : Profile) : Prop where
  states : ∃ config, Request.ofWords words = .ok ⟨task, config, output⟩ ∧
    Files.profile tree.finding config = .ok profile
  states' : ∃ config, Request.ofWords words' = .ok ⟨task, config, output⟩ ∧
    Files.profile tree'.finding config = .ok profile'
  files : ∃ hidden, tree.AgreeBut hidden tree' ∧ ∀ path ∈ task.reads profile tree.finding,
    ∀ place, tree.locate path = .ok place → ¬hidden place

section Runs

variable {hidden : List String → Prop} {tree tree' : FileTree}

/-- Trees with the same directories take a result alike. -/
theorem deliver_of_agreeBut (agree : tree.AgreeBut hidden tree') {request request' : Request}
    (same : request'.output = request.output) (text : List Char) :
    let outcome := request.deliver text tree
    let outcome' := request'.deliver text tree'
    outcome'.ending = outcome.ending ∧ outcome'.printed = outcome.printed ∧
      ∀ path, request.output = some path → outcome.ending = .done →
        (outcome'.tree.finding path).bytes = (outcome.tree.finding path).bytes := by
  cases named : request.output with
  | none =>
    rw [deliver_of_bare named, deliver_of_bare (same.trans named)]
    exact ⟨rfl, rfl, by simp⟩
  | some path =>
    let bytes := (String.ofList text).toUTF8
    have target := agree.target_eq path
    cases found : tree.target path with
    | error cause =>
      rw [found] at target
      have fails := (tree.write_eq_error_iff path bytes cause).mpr found
      have fails' := (tree'.write_eq_error_iff path bytes cause).mpr target
      rw [deliver_of_unwritable named fails, deliver_of_unwritable (same.trans named) fails']
      exact ⟨rfl, rfl, by simp⟩
    | ok place =>
      rw [found] at target
      have writes := (tree.write_eq_ok_iff (tree.put place bytes) path bytes).mpr ⟨place, found, rfl⟩
      have writes' := (tree'.write_eq_ok_iff (tree'.put place bytes) path bytes).mpr ⟨place, target, rfl⟩
      obtain ⟨_, _, written⟩ := FileTree.exists_written writes
      obtain ⟨_, _, written'⟩ := FileTree.exists_written writes'
      rw [deliver_of_write named writes, deliver_of_write (same.trans named) writes']
      refine ⟨rfl, rfl, ?_⟩
      intro other again _
      rw [← Option.some.inj again]
      exact written'.content.trans written.content.symm

variable {task : Task} {output : Option String}

theorem run_eq_of_profile {words : List String} {config : Option String} {profile : Profile}
    (states : Request.ofWords words = .ok ⟨task, config, output⟩)
    (read : Files.profile tree.finding config = .ok profile) :
    run words tree =
      match task.result tree.finding profile with
      | .ok text => Request.deliver ⟨task, config, output⟩ text tree
      | .error failure => { ending := .failed failure, tree } := by
  rw [run, states]
  simp only [Request.run, Request.result, read]
  rfl

/-- Two runs that differ in the profile end alike, print the same and write the same when the profiles
agree on what the task uses. So what a profile says of the verdict counts for classifications only, and
what it says of the control ports for extractions only, even where it is refused there. -/
theorem run_ignores_other_settings {words words' : List String} {profile profile' : Profile}
    (alike : SameButProfile task output words words' tree tree' profile profile')
    (agree : task.Agree profile profile') :
    let outcome := run words tree
    let outcome' := run words' tree'
    (outcome'.ending = outcome.ending ∧ outcome'.printed = outcome.printed ∧
      (∀ path, output = some path → outcome.ending = .done →
        (outcome'.tree.finding path).bytes = (outcome.tree.finding path).bytes) ∧
      (tree' = tree → outcome'.tree = outcome.tree)) ∧
    ((∀ inputs, task ≠ .classify inputs) →
      Verdict.Evaluator.ofSettings profile.withDefaultVerdict.settings.verdict = .ok .stock ∧
      task.result tree.finding profile.withDefaultVerdict = task.result tree.finding profile) ∧
    ((∀ traces, task ≠ .extract traces) →
      profile.withDefaultControl.settings.controlPorts.isEmpty = false ∧
      task.result tree.finding profile.withDefaultControl = task.result tree.finding profile) := by
  intro outcome outcome'
  obtain ⟨⟨config, states, read⟩, ⟨config', states', read'⟩, hidden, same, unread⟩ := alike
  have result : task.result tree'.finding profile' = task.result tree.finding profile :=
    (Task.result_of_agree agree tree'.finding).trans
      (Task.result_of_findsSame (findsSame_of_agreeBut same unread))
  have first : outcome = _ := run_eq_of_profile states read
  have second : outcome' = _ := run_eq_of_profile states' read'
  rw [result] at second
  refine ⟨?_, ?_, ?_⟩
  · cases gives : task.result tree.finding profile with
    | error failure =>
      rw [gives] at first second
      rw [first, second]
      exact ⟨rfl, rfl, by simp, id⟩
    | ok text =>
      rw [gives] at first second
      have outputs : Request.output ⟨task, config', output⟩ = Request.output ⟨task, config, output⟩ := rfl
      obtain ⟨ending, printed, written⟩ := deliver_of_agreeBut same outputs text
      rw [first, second]
      refine ⟨ending, printed, written, ?_⟩
      rintro rfl
      rfl
  · intro other
    have accepted : profile.withDefaultVerdict.settings.verdict = {} := rfl
    refine ⟨accepted ▸ rfl, Task.result_of_agree ?_ tree.finding⟩
    cases task with
    | extract traces => exact ⟨rfl, rfl⟩
    | classify inputs => exact absurd rfl (other inputs)
    | completion directory packets => exact ⟨rfl, rfl, rfl, rfl⟩
  · intro other
    refine ⟨rfl, Task.result_of_agree ?_ tree.finding⟩
    cases task with
    | extract traces => exact absurd rfl (other traces)
    | classify inputs => exact ⟨rfl, rfl, rfl, rfl, rfl, rfl⟩
    | completion directory packets => exact ⟨rfl, rfl, rfl, rfl⟩

end Runs

theorem Files.profile_of_hasText {files : Files} {path : String} {text : List Char} {profile : Profile}
    (holds : files.HasText path text) (parses : Profile.ofDocument? text = some profile) :
    files.profile (some path) = .ok profile := by
  have read := (Files.text_eq_ok_iff files path text).mpr holds
  refine bind_eq_ok_iff.mpr ⟨text, mapError_eq_ok_iff.mpr read, ?_⟩
  rw [parses]
  rfl

/-- Two profiles at one path, of which the second has a base rate that no verdict can use, and a trace that
is extracted under each. -/
theorem run_of_refused_base_rate :
    let trace := "- 1.0 ns3::TcpHeader (5 > 6 [SYN] Win=9".toList
    let refused := "[config]\nclosed_loop_base_rate = 2.0".toList
    let files := fun profile => [(["p"], (String.ofList profile).toUTF8), (["a"], (String.ofList trace).toUTF8)]
    let tree : FileTree := { files := files [] }
    let tree' : FileTree := { files := files refused }
    let words := ["--config", "p", "extract", "-o", "b", "a"]
    (∃ profile, Profile.ofDocument? refused = some profile ∧
        profile.settings.verdict.fault?.isSome = true) ∧
      (run words tree).ending = .done ∧ (run words tree').ending = .done ∧
      ((run words tree').tree.finding "b").bytes = ((run words tree).tree.finding "b").bytes := by
  intro trace refused files tree tree' words
  have states : Request.ofWords words = .ok ⟨.extract ["a"], some "p", some "b"⟩ := by decide
  have first : (Profile.ofDocument? []).any (fun profile =>
      profile.settings.controlPorts = .control) = true := by decide +kernel
  have second : (Profile.ofDocument? refused).any (fun profile =>
      profile.settings.controlPorts = .control && profile.settings.verdict.fault?.isSome) = true := by
    decide +kernel
  obtain ⟨profile, parsed, ports⟩ := (Option.any_eq_true _ _).mp first
  obtain ⟨profile', parsed', checked⟩ := (Option.any_eq_true _ _).mp second
  simp only [Bool.and_eq_true, decide_eq_true_eq] at ports checked
  obtain ⟨ports', faulty⟩ := checked
  have read : Files.profile tree.finding (some "p") = .ok profile :=
    Files.profile_of_hasText rfl parsed
  have read' : Files.profile tree'.finding (some "p") = .ok profile' :=
    Files.profile_of_hasText rfl parsed'
  have same : tree.AgreeBut (· = ["p"]) tree' :=
    FileTree.agreeBut_of_bytes tree ["p"] _ _ [(["a"], (String.ofList trace).toUTF8)]
  have unread : ∀ path ∈ Task.reads (.extract ["a"]) profile tree.finding,
      ∀ place, tree.locate path = .ok place → ¬place = ["p"] := by
    intro path inside place leads
    rw [List.mem_singleton.mp inside] at leads
    obtain rfl : ["a"] = place := Except.ok.inj leads
    decide
  have agree : Task.Agree (.extract ["a"]) profile profile' := by
    rw [Task.Agree, ports, ports']
    exact ⟨rfl, rfl⟩
  have alike : SameButProfile (.extract ["a"]) (some "b") words words tree tree' profile profile' :=
    ⟨⟨some "p", states, read⟩, ⟨some "p", states, read'⟩, _, same, unread⟩
  obtain ⟨⟨ending, _, written, _⟩, _⟩ := run_ignores_other_settings alike agree
  have done : (run words tree).ending = .done := by
    have holds : Files.HasText tree.finding "a" trace := rfl
    have texts : ∀ path ∈ ["a"], Files.HasText tree.finding path trace := by simpa using holds
    have gives := result_of_hasText tree.finding (some "p") (some "b") ["a"] read (by rw [ports]; rfl) texts
    apply run_done states gives
    intro path named
    obtain rfl := Option.some.inj named
    exact ⟨_, rfl⟩
  exact ⟨⟨profile', parsed', faulty⟩, done, ending.trans done, written "b" rfl done⟩

end Command

end FlowAudit
