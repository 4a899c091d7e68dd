import FlowAudit.Command.Request
import FlowAudit.Proofs.Attempts

set_option autoImplicit false

/-!
Command lines with and without a place for the result. A path that a request names is not empty, and a
command line without the words of its output option states the same request, without an output
(`ofWords_withoutOutput`).
-/
namespace FlowAudit.Command

namespace Draft

/-- The words take the first draft to the last one. -/
inductive Reads : Draft → List String → Draft → Prop where
  | done {draft : Draft} : Reads draft [] draft
  | operand {draft next last : Draft} {word text : String} {rest : List String}
      (means : Word.read draft.verb word = .operand text) (adds : draft.addOperand text = .ok next)
      (later : Reads next rest last) : Reads draft (word :: rest) last
  | joined {draft next last : Draft} {word value : String} {option : ValueOption} {rest : List String}
      (means : Word.read draft.verb word = .option option (some value))
      (sets : draft.set option value = .ok next) (later : Reads next rest last) :
      Reads draft (word :: rest) last
  | spaced {draft next last : Draft} {word value : String} {option : ValueOption} {rest : List String}
      (means : Word.read draft.verb word = .option option none) (usable : Word.canBeValue value = true)
      (sets : draft.set option value = .ok next) (later : Reads next rest last) :
      Reads draft (word :: value :: rest) last
  | operands {draft last : Draft} {word : String} {rest : List String}
      (means : Word.read draft.verb word = .endOfOptions) (begun : draft.verb ≠ none)
      (adds : rest.foldlM addOperand draft = .ok last) : Reads draft (word :: rest) last

theorem reads_of_read {draft last : Draft} {words : List String} (success : draft.read words = .ok last) :
    Reads draft words last := by
  fun_induction read draft words with
  | case1 draft =>
    obtain rfl := Except.ok.inj success
    exact .done
  | case2 => cases success
  | case3 => cases success
  | case4 draft word rest means begun => exact .operands means begun (mapError_eq_ok_iff.mp success)
  | case5 => cases success
  | case6 draft word rest text means _ next adds ih => exact .operand means adds (ih success)
  | case7 => cases success
  | case8 draft word rest option value means next sets ih => exact .joined means sets (ih success)
  | case9 => cases success
  | case10 => cases success
  | case11 draft word option means value rest usable next sets ih =>
    exact .spaced means usable sets (ih success)
  | case12 => cases success
  | case13 => cases success

theorem read_of_reads {draft last : Draft} {words : List String} (reads : Reads draft words last) :
    draft.read words = .ok last := by
  induction reads with
  | done => rfl
  | operand means adds _ ih =>
    rename_i draft next last word text rest _
    -- The word for help is no verb.
    have other : ¬(draft.verb = none ∧ text = "help") := by
      rintro ⟨unset, rfl⟩
      rw [addOperand, unset] at adds
      cases adds
    simp only [read, means, if_neg other, adds, ih]
  | joined means sets _ ih => simp only [read, means, sets, ih]
  | spaced means usable sets _ ih => simp only [read, means, if_pos usable, sets, ih]
  | operands means begun adds => simp only [read, means, if_neg begun, adds, Except.mapError]

theorem read_eq_ok_iff (draft last : Draft) (words : List String) :
    draft.read words = .ok last ↔ Reads draft words last :=
  ⟨reads_of_read, read_of_reads⟩

/-! Steps -/

/-- What an option does with its value: it takes a place that is free. A profile is kept apart when it is
named ahead of the verb. -/
inductive Sets (draft : Draft) (value : String) : ValueOption → Draft → Prop where
  | outerConfig {config : Option String} (unset : draft.verb = none)
      (taken : once .config draft.outerConfig (checkedPath value) = .ok config) :
      Sets draft value .config { draft with outerConfig := config }
  | config {verb : Verb} {config : Option String} (begun : draft.verb = some verb)
      (taken : once .config draft.config (checkedPath value) = .ok config) :
      Sets draft value .config { draft with config := config }
  | output {output : Option String} (taken : once .output draft.output (checkedPath value) = .ok output) :
      Sets draft value .output { draft with output := output }
  | packets {packets : Option UInt32} (taken : once .packets draft.packets (packetCount value) = .ok packets) :
      Sets draft value .packets { draft with packets := packets }

theorem set_eq_ok_iff (draft next : Draft) (option : ValueOption) (value : String) :
    draft.set option value = .ok next ↔ Sets draft value option next := by
  constructor
  · intro sets
    unfold set at sets
    split at sets <;> obtain ⟨found, taken, result⟩ := bind_eq_ok_iff.mp sets <;>
      obtain rfl := Except.ok.inj result
    · rename_i unset
      exact .outerConfig unset taken
    · rename_i begun
      exact .config begun taken
    · exact .output taken
    · exact .packets taken
  · intro sets
    unfold set
    cases sets with
    | outerConfig unset taken =>
      rw [unset]
      exact bind_eq_ok_iff.mpr ⟨_, taken, rfl⟩
    | config begun taken =>
      rw [begun]
      exact bind_eq_ok_iff.mpr ⟨_, taken, rfl⟩
    | output taken => exact bind_eq_ok_iff.mpr ⟨_, taken, rfl⟩
    | packets taken => exact bind_eq_ok_iff.mpr ⟨_, taken, rfl⟩

theorem checkedPath_eq_ok_iff (text path : String) :
    checkedPath text = .ok path ↔ path ≠ "" ∧ text = path := by
  unfold checkedPath
  split
  · rename_i empty
    simp only [reduceCtorEq, false_iff, not_and]
    rintro some rfl
    exact some (String.isEmpty_iff.mp empty)
  · rename_i some
    rw [Except.ok.injEq]
    constructor
    · rintro rfl
      exact ⟨fun none => some (String.isEmpty_iff.mpr none), rfl⟩
    · exact And.right

/-- What an operand does: it is the verb, where there is none yet, or a path; `fct` takes only one. -/
inductive Adds (draft : Draft) (text : String) : Draft → Prop where
  | verb {verb : Verb} (unset : draft.verb = none) (known : Verb.ofWord? text = some verb) :
      Adds draft text { draft with verb := some verb }
  | path {verb : Verb} (begun : draft.verb = some verb) (free : verb = .fct → draft.operands = [])
      (named : text ≠ "") : Adds draft text { draft with operands := draft.operands ++ [text] }

theorem addOperand_eq_ok_iff (draft next : Draft) (text : String) :
    draft.addOperand text = .ok next ↔ Adds draft text next := by
  constructor
  · intro adds
    unfold addOperand at adds
    split at adds
    · rename_i unset
      split at adds
      · rename_i verb known
        obtain rfl := Except.ok.inj adds
        exact .verb unset known
      · cases adds
    · cases adds
    · rename_i verb begun single
      obtain ⟨path, checked, result⟩ := bind_eq_ok_iff.mp adds
      obtain ⟨named, rfl⟩ := (checkedPath_eq_ok_iff text path).mp checked
      obtain rfl := Except.ok.inj result
      refine .path begun ?_ named
      rintro rfl
      cases listed : draft.operands with
      | nil => rfl
      | cons first more => exact (single first more listed rfl).elim
  · intro adds
    unfold addOperand
    cases adds with
    | verb unset known => rw [unset, known]; rfl
    | path begun free named =>
      rename_i verb
      have checked := (checkedPath_eq_ok_iff text text).mpr ⟨named, rfl⟩
      split
      · rename_i unset
        rw [begun] at unset
        cases unset
      · rename_i fct listed
        rw [begun] at fct
        rw [free (Option.some.inj fct)] at listed
        cases listed
      · rw [checked]
        rfl

/-! Paths -/

theorem operands_set {draft next : Draft} {option : ValueOption} {value : String}
    (sets : draft.set option value = .ok next) : next.operands = draft.operands := by
  cases (set_eq_ok_iff draft next option value).mp sets <;> rfl

theorem ne_empty_of_addOperand {draft next : Draft} {text : String} (adds : draft.addOperand text = .ok next)
    (named : ∀ path ∈ draft.operands, path ≠ "") : ∀ path ∈ next.operands, path ≠ "" := by
  cases (addOperand_eq_ok_iff draft next text).mp adds with
  | verb _ _ => exact named
  | path _ _ new =>
    intro path inside
    rcases List.mem_append.mp inside with earlier | last
    · exact named path earlier
    · rwa [List.mem_singleton.mp last]

theorem ne_empty_of_foldlM_addOperand {draft last : Draft} {texts : List String}
    (adds : texts.foldlM addOperand draft = .ok last) (named : ∀ path ∈ draft.operands, path ≠ "") :
    ∀ path ∈ last.operands, path ≠ "" := by
  induction texts generalizing draft with
  | nil => exact Except.ok.inj adds ▸ named
  | cons text rest ih =>
    obtain ⟨next, here, later⟩ := bind_eq_ok_iff.mp adds
    exact ih later (ne_empty_of_addOperand here named)

theorem Reads.ne_empty {draft last : Draft} {words : List String} (reads : Reads draft words last)
    (named : ∀ path ∈ draft.operands, path ≠ "") : ∀ path ∈ last.operands, path ≠ "" := by
  induction reads with
  | done => exact named
  | operand _ adds _ ih => exact ih (ne_empty_of_addOperand adds named)
  | joined _ sets _ ih => exact ih (operands_set sets ▸ named)
  | spaced _ _ sets _ ih => exact ih (operands_set sets ▸ named)
  | operands _ _ adds => exact ne_empty_of_foldlM_addOperand adds named

/-! Outputs -/

/-- The draft without an output. -/
def quiet (draft : Draft) : Draft :=
  { draft with output := none }

theorem quiet_of_set_output {draft next : Draft} {value : String} (sets : draft.set .output value = .ok next) :
    next.quiet = draft.quiet := by
  cases (set_eq_ok_iff draft next .output value).mp sets
  rfl

theorem verb_set {draft next : Draft} {option : ValueOption} {value : String}
    (sets : draft.set option value = .ok next) : next.verb = draft.verb := by
  cases (set_eq_ok_iff draft next option value).mp sets <;> rfl

theorem set_quiet {draft next : Draft} {option : ValueOption} {value : String} (other : option ≠ .output)
    (sets : draft.set option value = .ok next) : draft.quiet.set option value = .ok next.quiet := by
  rw [set_eq_ok_iff] at sets ⊢
  cases sets with
  | outerConfig unset taken => exact .outerConfig unset taken
  | config begun taken => exact .config begun taken
  | output => exact absurd rfl other
  | packets taken => exact .packets taken

theorem verb_addOperand {draft next : Draft} {text : String} (adds : draft.addOperand text = .ok next) :
    next.verb = draft.verb.or (Verb.ofWord? text) := by
  cases (addOperand_eq_ok_iff draft next text).mp adds with
  | verb unset known => rw [unset, known, Option.none_or]
  | path begun _ _ => rw [begun, Option.some_or]

theorem addOperand_quiet {draft next : Draft} {text : String} (adds : draft.addOperand text = .ok next) :
    draft.quiet.addOperand text = .ok next.quiet := by
  rw [addOperand_eq_ok_iff] at adds ⊢
  cases adds with
  | verb unset known => exact .verb unset known
  | path begun free named => exact .path begun free named

theorem foldlM_addOperand_quiet {draft last : Draft} {texts : List String}
    (adds : texts.foldlM addOperand draft = .ok last) :
    texts.foldlM addOperand draft.quiet = .ok last.quiet := by
  induction texts generalizing draft with
  | nil => exact congrArg Except.ok (congrArg quiet (Except.ok.inj adds))
  | cons text rest ih =>
    obtain ⟨next, here, later⟩ := bind_eq_ok_iff.mp adds
    exact bind_eq_ok_iff.mpr ⟨next.quiet, addOperand_quiet here, ih later⟩

end Draft

/-- The words of a command line that follow some verb, or none yet, without those that name an output. -/
def withoutOutput (verb : Option Verb) : List String → List String
  | [] => []
  | word :: rest =>
      match Word.read verb word with
      | .refused _ => word :: rest
      | .endOfOptions => word :: rest
      | .operand text => word :: withoutOutput (verb.or (Verb.ofWord? text)) rest
      | .option option (some _) =>
          (if option = .output then [] else [word]) ++ withoutOutput verb rest
      | .option option none =>
          match rest with
          | [] => [word]
          | value :: rest =>
              (if option = .output then [] else [word, value]) ++ withoutOutput verb rest

theorem Draft.Reads.quiet {draft last : Draft} {words : List String} (reads : Reads draft words last) :
    Reads draft.quiet (withoutOutput draft.verb words) last.quiet := by
  induction reads with
  | done => exact .done
  | operand means adds _ ih =>
    rw [verb_addOperand adds] at ih
    simp only [withoutOutput, means]
    exact .operand means (addOperand_quiet adds) ih
  | joined means sets _ ih =>
    rw [verb_set sets] at ih
    simp only [withoutOutput, means]
    split
    · rename_i output
      subst output
      rwa [quiet_of_set_output sets] at ih
    · rename_i other
      exact .joined means (set_quiet other sets) ih
  | spaced means usable sets _ ih =>
    rw [verb_set sets] at ih
    simp only [withoutOutput, means]
    split
    · rename_i output
      subst output
      rwa [quiet_of_set_output sets] at ih
    · rename_i other
      exact .spaced means usable (set_quiet other sets) ih
  | operands means begun adds =>
    simp only [withoutOutput, means]
    exact .operands means begun (foldlM_addOperand_quiet adds)

theorem Draft.request_eq_ok_iff (draft : Draft) (request : Request) :
    draft.request = .ok request ↔
      ∃ task, draft.task = .ok task ∧ ⟨task, draft.config <|> draft.outerConfig, draft.output⟩ = request :=
  map_eq_ok_iff

theorem ofWords_eq_ok_iff (words : List String) (request : Request) :
    Request.ofWords words = .ok request ↔
      ∃ draft, Draft.Reads {} words draft ∧ draft.request = .ok request := by
  unfold Request.ofWords
  cases read : Draft.read {} words with
  | error refusal =>
    refine iff_of_false (by simp) ?_
    rintro ⟨draft, reads, _⟩
    rw [(Draft.read_eq_ok_iff _ _ _).mpr reads] at read
    cases read
  | ok draft =>
    have only : ∀ other, Draft.Reads {} words other ↔ other = draft := by
      intro other
      rw [← Draft.read_eq_ok_iff, read, Except.ok.injEq, eq_comm]
    simp only [mapError_eq_ok_iff, only, exists_eq_left]

/-- Without the words of its output option a command line states the same request, without an output. -/
theorem ofWords_withoutOutput {words : List String} {request : Request}
    (states : Request.ofWords words = .ok request) :
    Request.ofWords (withoutOutput none words) = .ok { request with output := none } := by
  rw [ofWords_eq_ok_iff] at states ⊢
  obtain ⟨draft, reads, complete⟩ := states
  obtain ⟨task, known, rfl⟩ := (draft.request_eq_ok_iff request).mp complete
  exact ⟨draft.quiet, reads.quiet, (draft.quiet.request_eq_ok_iff _).mpr ⟨task, known, rfl⟩⟩

/-- A value may stand in its own word or in the next one; after `--` there are no options. -/
example :
    withoutOutput none ["extract", "-o", "out", "a", "-oout", "--output=out", "--config", "c", "--", "-o"] =
      ["extract", "a", "--config", "c", "--", "-o"] := by
  decide

/-- The paths that a task names. -/
def Task.paths : Task → List String
  | .extract traces => traces
  | .classify inputs => inputs
  | .completion directory _ => [directory]

theorem Draft.mem_operands_of_task {draft : Draft} {task : Task} (known : draft.task = .ok task) :
    ∀ path ∈ task.paths, path ∈ draft.operands := by
  unfold Draft.task at known
  split at known
  · cases known
  · cases known
  · rename_i listed
    obtain rfl := Except.ok.inj known
    exact fun _ => id
  · rename_i listed
    obtain rfl := Except.ok.inj known
    exact fun _ => id
  · rename_i directory _ _ listed
    split at known
    · obtain rfl := Except.ok.inj known
      intro path inside
      rw [List.mem_singleton.mp inside, listed]
      exact List.mem_cons_self
    · cases known

/-- A path that a command line names is not empty. -/
theorem ne_empty_of_mem_paths {words : List String} {request : Request}
    (states : Request.ofWords words = .ok request) : ∀ path ∈ request.task.paths, path ≠ "" := by
  obtain ⟨draft, reads, complete⟩ := (ofWords_eq_ok_iff words request).mp states
  obtain ⟨task, known, rfl⟩ := (draft.request_eq_ok_iff request).mp complete
  have named := reads.ne_empty (by simp)
  exact fun path inside => named path (Draft.mem_operands_of_task known path inside)

end FlowAudit.Command
