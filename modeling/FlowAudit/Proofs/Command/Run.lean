import FlowAudit.Command.Run
import FlowAudit.Proofs.Command.Extraction
import FlowAudit.Proofs.Command.Unread

set_option autoImplicit false

/-!
Runs and the files that they leave. A run writes nothing before its whole result is there, so a run that
fails changes no file, and one that does not changes the file for its output at most
(`run_changes_only_output`).
-/
namespace FlowAudit.Command

section Deliver

variable {request : Request} {tree after : FileTree} {path : String} {text : List Char} {cause : FileError}

theorem deliver_of_write (named : request.output = some path)
    (writes : tree.write path (String.ofList text).toUTF8 = .ok after) :
    request.deliver text tree = { ending := .done, tree := after } := by
  simp only [Request.deliver, named, writes]

theorem deliver_of_unwritable (named : request.output = some path)
    (fails : tree.write path (String.ofList text).toUTF8 = .error cause) :
    request.deliver text tree = { ending := .failed (.unwritable path cause), tree } := by
  simp only [Request.deliver, named, fails]

theorem deliver_of_bare (bare : request.output = none) :
    request.deliver text tree = { ending := .done, printed := text, tree } := by
  simp only [Request.deliver, bare]

end Deliver

/-- How a run can end, and what it leaves. -/
inductive Ends (words : List String) (tree : FileTree) : Outcome → Prop where
  | refused {refusal : Refusal} (states : Request.ofWords words = .error refusal) :
      Ends words tree { ending := .refused refusal, tree }
  | failed {request : Request} {failure : Failure} (states : Request.ofWords words = .ok request)
      (fails : request.result tree.finding = .error failure) :
      Ends words tree { ending := .failed failure, tree }
  | printed {request : Request} {text : List Char} (states : Request.ofWords words = .ok request)
      (gives : request.result tree.finding = .ok text) (bare : request.output = none) :
      Ends words tree { ending := .done, printed := text, tree }
  | written {request : Request} {text : List Char} {path : String} {after : FileTree}
      (states : Request.ofWords words = .ok request) (gives : request.result tree.finding = .ok text)
      (named : request.output = some path)
      (writes : tree.write path (String.ofList text).toUTF8 = .ok after) :
      Ends words tree { ending := .done, tree := after }
  | unwritten {request : Request} {text : List Char} {path : String} {cause : FileError}
      (states : Request.ofWords words = .ok request) (gives : request.result tree.finding = .ok text)
      (named : request.output = some path)
      (fails : tree.write path (String.ofList text).toUTF8 = .error cause) :
      Ends words tree { ending := .failed (.unwritable path cause), tree }

theorem run_ends (words : List String) (tree : FileTree) : Ends words tree (run words tree) := by
  unfold run
  split
  · rename_i request states
    unfold Request.run
    split
    · rename_i text gives
      unfold Request.deliver
      split
      · rename_i bare
        exact .printed states gives bare
      · rename_i path named
        split
        · rename_i after writes
          exact .written states gives named writes
        · rename_i cause fails
          exact .unwritten states gives named fails
    · rename_i failure fails
      exact .failed states fails
  · rename_i refusal states
    exact .refused states

/-- A request without an output prints its result. -/
theorem run_eq_printed {words : List String} {request : Request} {tree : FileTree} {text : List Char}
    (states : Request.ofWords words = .ok request) (gives : request.result tree.finding = .ok text)
    (bare : request.output = none) :
    run words tree = { ending := .done, printed := text, tree } := by
  rw [run, states]
  simp only [Request.run, gives, deliver_of_bare bare]

/-- A run ends well when its result is there and can be delivered. -/
theorem run_done {words : List String} {request : Request} {tree : FileTree} {text : List Char}
    (states : Request.ofWords words = .ok request) (gives : request.result tree.finding = .ok text)
    (writable : ∀ path, request.output = some path →
      ∃ after, tree.write path (String.ofList text).toUTF8 = .ok after) :
    (run words tree).ending = .done := by
  rw [run, states]
  simp only [Request.run, gives]
  cases named : request.output with
  | none => rw [deliver_of_bare named]
  | some path =>
    obtain ⟨after, writes⟩ := writable path named
    rw [deliver_of_write named writes]

/-- A run that fails leaves all files as they were. Any other one prints its whole result, or writes it to
the file for its output and changes no other file. What it writes is what the same command prints without
an output, and prints once more afterwards when that file is not one of those that it reads. Only requests
for help and for the version have no result, and a result that can be delivered is. -/
theorem run_changes_only_output (words : List String) (tree : FileTree) :
    let outcome := run words tree
    (outcome.ending.exitCode ≠ 0 → outcome.tree = tree ∧ outcome.printed = []) ∧
    (outcome.ending.exitCode = 0 →
      Request.ofWords words = .error .help ∨ Request.ofWords words = .error .version ∨
      ∃ request text, Request.ofWords words = .ok request ∧ request.result tree.finding = .ok text ∧
        run (withoutOutput none words) tree = { ending := .done, printed := text, tree } ∧
        (request.output = none → outcome.printed = text ∧ outcome.tree = tree) ∧
        ∀ path, request.output = some path → outcome.printed = [] ∧
          ∃ place, tree.locate path = .ok place ∧
            tree.ChangesOnly outcome.tree place (String.ofList text).toUTF8 ∧
            (outcome.tree.finding path).bytes = .ok (String.ofList text).toUTF8 ∧
            ((∀ read ∈ request.reads outcome.tree.finding, tree.locate read ≠ .ok place) →
              run (withoutOutput none words) outcome.tree =
                { ending := .done, printed := text, tree := outcome.tree })) ∧
    ∀ request text, Request.ofWords words = .ok request → request.result tree.finding = .ok text →
      (∀ path, request.output = some path →
        ∃ after, tree.write path (String.ofList text).toUTF8 = .ok after) → outcome.ending = .done := by
  intro outcome
  have succeeds : ∀ request text, Request.ofWords words = .ok request →
      request.result tree.finding = .ok text → (∀ path, request.output = some path →
        ∃ after, tree.write path (String.ofList text).toUTF8 = .ok after) → outcome.ending = .done :=
    fun _ _ => run_done
  have ends : Ends words tree outcome := run_ends words tree
  clear_value outcome
  cases ends with
  | refused states =>
    rename_i refusal
    refine ⟨fun _ => ⟨rfl, rfl⟩, ?_, succeeds⟩
    intro zero
    cases refusal with
    | help => exact Or.inl states
    | version => exact Or.inr (Or.inl states)
    | misuse fault => cases zero
  | failed states fails =>
    refine ⟨fun _ => ⟨rfl, rfl⟩, ?_, succeeds⟩
    intro zero
    cases zero
  | unwritten states gives named fails =>
    refine ⟨fun _ => ⟨rfl, rfl⟩, ?_, succeeds⟩
    intro zero
    cases zero
  | printed states gives bare =>
    rename_i request text
    refine ⟨fun other => absurd rfl other, fun _ => Or.inr (Or.inr ?_), succeeds⟩
    have alone := ofWords_withoutOutput states
    refine ⟨request, text, states, gives, run_eq_printed alone gives rfl, fun _ => ⟨rfl, rfl⟩, ?_⟩
    intro path named
    rw [bare] at named
    cases named
  | written states gives named writes =>
    rename_i request text path after
    refine ⟨fun other => absurd rfl other, fun _ => Or.inr (Or.inr ?_), succeeds⟩
    have alone := ofWords_withoutOutput states
    refine ⟨request, text, states, gives, run_eq_printed alone gives rfl, ?_, ?_⟩
    · intro bare
      rw [named] at bare
      cases bare
    · intro other same
      obtain rfl : path = other := Option.some.inj (named.symm.trans same)
      obtain ⟨directory, name, written⟩ := FileTree.exists_written writes
      refine ⟨rfl, _, written.leads, written.changes, written.content, ?_⟩
      intro unread
      have again := result_of_written written (ne_empty_of_mem_paths states) gives unread
      exact run_eq_printed alone again rfl

/-- A trace is extracted to a new file, from which the file of the trace stays apart; then a trace that is
not there. -/
theorem run_of_extraction_to_file :
    let trace := "- 1.0 ns3::TcpHeader (5 > 6 [SYN] Win=9".toList
    let tree : FileTree := { files := [(["a"], (String.ofList trace).toUTF8)] }
    let after := (run ["extract", "-o", "b", "a"] tree).tree
    (∃ text, run ["extract", "a"] tree = { ending := .done, printed := text, tree } ∧
        (run ["extract", "-o", "b", "a"] tree).printed = [] ∧
        (after.finding "b").bytes = .ok (String.ofList text).toUTF8 ∧
        (after.finding "a").bytes = .ok (String.ofList trace).toUTF8 ∧
        run ["extract", "a"] after = { ending := .done, printed := text, tree := after }) ∧
      (run ["extract", "-o", "b", "a", "c"] tree).ending.exitCode = 1 ∧
      (run ["extract", "-o", "b", "a", "c"] tree).tree = tree := by
  intro trace tree after
  have states : Request.ofWords ["extract", "-o", "b", "a"] = .ok ⟨.extract ["a"], none, some "b"⟩ := by
    decide
  have holds : Files.HasText tree.finding "a" trace := rfl
  have read : Files.profile tree.finding none = .ok {} := rfl
  have texts : ∀ path ∈ ["a"], Files.HasText tree.finding path trace := by simpa using holds
  have gives := result_of_hasText tree.finding none (some "b") ["a"] read rfl texts
  have done := run_done states gives (by
    intro path named
    obtain rfl := Option.some.inj named
    exact ⟨_, rfl⟩)
  have zero : (run ["extract", "-o", "b", "a"] tree).ending.exitCode = 0 := congrArg Ending.exitCode done
  obtain ⟨_, succeeds, _⟩ := run_changes_only_output ["extract", "-o", "b", "a"] tree
  rcases succeeds zero with help | version | ⟨request, text, stated, _, alone, _, written⟩
  · rw [states] at help
    cases help
  · rw [states] at version
    cases version
  · obtain rfl := Except.ok.inj (states.symm.trans stated)
    obtain ⟨silent, place, leads, changes, content, again⟩ := written "b" rfl
    obtain rfl : ["b"] = place := Except.ok.inj leads
    have apart : tree.locate "a" ≠ .ok ["b"] := by
      have elsewhere : tree.locate "a" = .ok ["a"] := rfl
      rw [elsewhere]
      intro same
      exact absurd (Except.ok.inj same) (by decide)
    have unread : ∀ read ∈ Request.reads ⟨.extract ["a"], none, some "b"⟩ after.finding,
        tree.locate read ≠ .ok ["b"] := by
      intro read inside
      rwa [List.mem_singleton.mp inside]
    refine ⟨⟨text, alone, silent, content, ?_, again unread⟩, ?_⟩
    · exact (changes.bytes_finding_of_ne apart _).mpr holds
    · have missing : Request.ofWords ["extract", "-o", "b", "a", "c"] =
          .ok ⟨.extract ["a", "c"], none, some "b"⟩ := by
        decide
      have split : ["a", "c"] = ["a"] ++ "c" :: [] := rfl
      have stops : ExtractionStops tree.finding none ["a", "c"] (.unreadable .trace "c" .missing) :=
        .trace read rfl split (by simpa using ⟨trace, holds⟩) (.unreadable rfl)
      have one : (run ["extract", "-o", "b", "a", "c"] tree).ending.exitCode = 1 := by
        rw [run, missing]
        simp only [Request.run, (result_eq_error_iff _ _ _ _ _).mpr stops]
        rfl
      obtain ⟨fails, _⟩ := run_changes_only_output ["extract", "-o", "b", "a", "c"] tree
      exact ⟨one, (fails (one ▸ by decide)).1⟩

end FlowAudit.Command
