import FlowAudit.Decimal.Literal

set_option autoImplicit false

/-!
Requests, as a command line states them. A word that starts with a dash is an option, up to the
word `--`; a lone dash is an operand. The value of an option is the rest of its word, or the next
word, which may then not look like an option. The first word that cannot be read decides how a
command line is refused.
-/
namespace FlowAudit.Command

/-- What there is to do. -/
inductive Task where
  /-- Rebuild the flows of some traces. -/
  | extract (traces : List String)
  /-- Classify the drop events of some snapshot documents or directories of them. -/
  | classify (inputs : List String)
  /-- Distributions of completion times over a directory of flow records. -/
  | completion (directory : String) (packets : UInt32)
  deriving DecidableEq, Repr

structure Request where
  task : Task
  /-- The path of a profile. -/
  config : Option String := none
  /-- The path of a file that takes the result. -/
  output : Option String := none
  deriving DecidableEq, Repr

/-- The words for the tasks. -/
inductive Verb where
  | extract
  | classify
  | fct
  deriving DecidableEq, Repr

namespace Verb

def word : Verb → String
  | extract => "extract"
  | classify => "classify"
  | fct => "fct"

def ofWord? (word : String) : Option Verb :=
  [extract, classify, fct].find? fun verb => verb.word = word

end Verb

/-- The options that take a value. -/
inductive ValueOption where
  | config
  | output
  | packets
  deriving DecidableEq, Repr

namespace ValueOption

def long : ValueOption → String
  | config => "config"
  | output => "output"
  | packets => "packet"

def letter? : ValueOption → Option Char
  | config => none
  | output => some 'o'
  | packets => some 'p'

/-- The options that may stand before the verb, or after it. -/
def knownBy : Option Verb → List ValueOption
  | none => [config]
  | some .fct => [config, output, packets]
  | some _ => [config, output]

end ValueOption

inductive Misuse where
  | missingVerb
  | unknownVerb (word : String)
  | unknownOption (word : String)
  | unwantedValue (word : String)
  | missingValue (option : ValueOption)
  | repeatedOption (option : ValueOption)
  | emptyPath
  | badPackets (text : String)
  | unwantedOperand (word : String)
  | missingOperand
  | missingPackets
  deriving DecidableEq, Repr

def Misuse.message : Misuse → String
  | missingVerb => "a command is needed"
  | unknownVerb word => s!"unknown command '{word}'"
  | unknownOption word => s!"unexpected option '{word}'"
  | unwantedValue word => s!"'{word}' takes no value"
  | missingValue option => s!"'--{option.long}' needs a value"
  | repeatedOption option => s!"'--{option.long}' is given more than once"
  | emptyPath => "a path is empty"
  | badPackets text => s!"'{text}' is not a packet count"
  | unwantedOperand word => s!"unexpected argument '{word}'"
  | missingOperand => "a path is needed"
  | missingPackets => "'--packet' is needed"

/-- Why a command line states no request. -/
inductive Refusal where
  | help
  | version
  | misuse (fault : Misuse)
  deriving DecidableEq, Repr

/-- What a word means where it is not the value of an option. -/
inductive Word where
  | operand (text : String)
  /-- All words that follow are operands. -/
  | endOfOptions
  | option (option : ValueOption) (value : Option String)
  | refused (refusal : Refusal)
  deriving DecidableEq, Repr

namespace Word

/-- A word of the form `--name` or `--name=value`. -/
def ofLong (verb : Option Verb) (word : String) (body : List Char) : Word :=
  let name := String.ofList (body.takeWhile (· != '='))
  let value := (body.dropWhile (· != '=')).tail?.map String.ofList
  let flag (refusal : Refusal) : Word :=
    refused (if value.isSome then .misuse (.unwantedValue word) else refusal)
  if name = "help" then flag .help
  else if name = "version" ∧ verb = none then flag .version
  else
    match (ValueOption.knownBy verb).find? fun known => known.long = name with
    | some known => option known value
    | none => refused (.misuse (.unknownOption word))

/-- A word of the form `-l`, `-lvalue` or `-l=value`. -/
def ofLetter (verb : Option Verb) (word : String) (letter : Char) (body : List Char) : Word :=
  let value :=
    match body with
    | [] => none
    | '=' :: value => some (String.ofList value)
    | value => some (String.ofList value)
  if letter = 'h' then refused .help
  else if letter = 'V' ∧ verb = none then refused .version
  else
    match (ValueOption.knownBy verb).find? fun known => known.letter? = some letter with
    | some known => option known value
    | none => refused (.misuse (.unknownOption word))

/-- The meaning of a word before or after the verb. -/
def read (verb : Option Verb) (word : String) : Word :=
  match word.toList with
  | ['-', '-'] => endOfOptions
  | '-' :: '-' :: body => ofLong verb word body
  | '-' :: letter :: body => ofLetter verb word letter body
  | _ => operand word

/-- Only a word that does not look like an option can be the value of the option before it. -/
def canBeValue (word : String) : Bool :=
  match word.toList with
  | '-' :: _ :: _ => false
  | _ => true

end Word

/-- What the words up to some point have settled. -/
structure Draft where
  verb : Option Verb := none
  /-- The profile that is named before the verb. -/
  outerConfig : Option String := none
  config : Option String := none
  output : Option String := none
  packets : Option UInt32 := none
  operands : List String := []
  deriving DecidableEq, Repr

/-- No path is empty. -/
def checkedPath (text : String) : Except Misuse String :=
  if text.isEmpty then .error .emptyPath else .ok text

/-- A whole number with an optional sign. -/
def packetCount (text : String) : Except Misuse UInt32 :=
  match Decimal.Literal.integer? text.toList with
  | some (Int.ofNat count) =>
      if bound : count < UInt32.size then .ok (UInt32.ofNatLT count bound)
      else .error (.badPackets text)
  | _ => .error (.badPackets text)

namespace Draft

/-- The value of an option that may be given once. -/
def once {α : Type} (option : ValueOption) (present : Option α) (value : Except Misuse α) :
    Except Misuse (Option α) :=
  if present.isSome then .error (.repeatedOption option) else value.map some

def set (draft : Draft) (option : ValueOption) (value : String) : Except Misuse Draft := do
  match option, draft.verb with
  | .config, none =>
      return { draft with outerConfig := ← once option draft.outerConfig (checkedPath value) }
  | .config, some _ =>
      return { draft with config := ← once option draft.config (checkedPath value) }
  | .output, _ =>
      return { draft with output := ← once option draft.output (checkedPath value) }
  | .packets, _ =>
      return { draft with packets := ← once option draft.packets (packetCount value) }

/-- The first operand is the verb. -/
def addOperand (draft : Draft) (word : String) : Except Misuse Draft := do
  match draft.verb, draft.operands with
  | none, _ =>
      match Verb.ofWord? word with
      | some verb => return { draft with verb := some verb }
      | none => throw (.unknownVerb word)
  | some .fct, _ :: _ => throw (.unwantedOperand word)
  | some _, operands => return { draft with operands := operands ++ [← checkedPath word] }

def task (draft : Draft) : Except Misuse Task :=
  match draft.verb, draft.operands with
  | none, _ => .error .missingVerb
  | some _, [] => .error .missingOperand
  | some .extract, traces => .ok (.extract traces)
  | some .classify, inputs => .ok (.classify inputs)
  | some .fct, directory :: _ =>
      match draft.packets with
      | some packets => .ok (.completion directory packets)
      | none => .error .missingPackets

/-- A profile that is named after the verb is taken before one that is named ahead of it. -/
def request (draft : Draft) : Except Misuse Request :=
  draft.task.map fun task => ⟨task, draft.config <|> draft.outerConfig, draft.output⟩

/-- The words after `help` name a command at most. -/
def helpRefusal : List String → Refusal
  | [] => .help
  | [word] =>
      if word = "help" ∨ (Verb.ofWord? word).isSome then .help else .misuse (.unknownVerb word)
  | _ :: word :: _ => .misuse (.unknownVerb word)

def read (draft : Draft) : List String → Except Refusal Draft
  | [] => .ok draft
  | word :: rest =>
      match Word.read draft.verb word with
      | .refused refusal => .error refusal
      | .endOfOptions =>
          if draft.verb = none then .error (.misuse .missingVerb)
          else (rest.foldlM addOperand draft).mapError .misuse
      | .operand text =>
          if draft.verb = none ∧ text = "help" then .error (helpRefusal rest)
          else
            match draft.addOperand text with
            | .ok draft => read draft rest
            | .error fault => .error (.misuse fault)
      | .option option (some value) =>
          match draft.set option value with
          | .ok draft => read draft rest
          | .error fault => .error (.misuse fault)
      | .option option none =>
          match rest with
          | [] => .error (.misuse (.missingValue option))
          | value :: rest =>
              if Word.canBeValue value then
                match draft.set option value with
                | .ok draft => read draft rest
                | .error fault => .error (.misuse fault)
              else .error (.misuse (.missingValue option))

end Draft

/-- The request that the words of a command line state. -/
def Request.ofWords (words : List String) : Except Refusal Request :=
  match Draft.read {} words with
  | .ok draft => draft.request.mapError .misuse
  | .error refusal => .error refusal

end FlowAudit.Command
