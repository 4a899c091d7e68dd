import FlowAudit.Flow.Table
import FlowAudit.Json.Fields
import FlowAudit.Json.Printer
import FlowAudit.Json.Reader
import FlowAudit.Text.Blank
import FlowAudit.Text.Lines

set_option autoImplicit false

/-!
The interchange form of flow tables: a line for each flow, which holds the key, a tab and the
record as a JSON object. Reading folds the lines for one flow together, the first line first, and
skips blank lines; the first line that cannot be read refuses the whole text.
-/
namespace FlowAudit.Flow

open FlowAudit.Text

namespace Key

/-- A key in a JSON text is a string that spells it. -/
def ofJson? (value : Json.Value) : Option Key :=
  value.text?.bind parse?

end Key

namespace Timeline

def toJson (timeline : Timeline) : Json.Value :=
  .object (timeline.entries.map fun entry => (decimal entry.1.toNat, .ofText entry.2))

/-- An ack number is a key that spells its canonical numeral without escapes. Of the members with
one key the last counts. -/
def ofJson? : Json.Value → Option Timeline
  | .object members =>
      (members.mapM fun (member : List Char × Json.Value) => do
        let ack ← Json.Value.uint32? (.number member.1)
        let time ← member.2.text?
        return (ack, time)).map ofPairs
  | _ => none

end Timeline

namespace Record

def toJson (record : Record) : Json.Value :=
  .object [Json.Value.member "s" (.ofText record.start),
    Json.Value.member "acks" record.acks.toJson]

def ofJson? (value : Json.Value) : Option Record :=
  match value.fields? ["s", "acks"] with
  | some [some start, some acks] => do return ⟨← start.text?, ← Timeline.ofJson? acks⟩
  | _ => none

end Record

/-- Why a line cannot be read as a flow record. -/
inductive RecordError where
  | missingTab
  | badKey (text : String)
  | badJson
  deriving DecidableEq, Repr

def RecordError.message : RecordError → String
  | missingTab => "missing tab between flow key and record"
  | badKey text => s!"flow key '{text}' is not of the form <port>-<port>"
  | badJson => "invalid record JSON"

/-- The first line of a text that cannot be read, counted from one with blank lines included. -/
structure TableError where
  line : Nat
  cause : RecordError
  deriving DecidableEq, Repr

def TableError.message (error : TableError) : String :=
  s!"line {error.line}: bad flow record: {error.cause.message}"

/-- The interchange line of a flow, without its line feed. -/
def recordLine (key : Key) (record : Record) : List Char :=
  key.spelling ++ '\t' :: Json.compact record.toJson

def isLineEnd (char : Char) : Bool :=
  char == '\r' || char == '\n'

/-- Reads one interchange line; line ends after it do not matter. -/
def readRecordLine (line : List Char) : Except RecordError (Key × Record) :=
  match cut ['\t'] (line.reverse.dropWhile isLineEnd).reverse with
  | none => .error .missingTab
  | some (keyText, json) =>
      match Key.read? keyText with
      | none => .error (.badKey (String.ofList keyText))
      | some key =>
          match (Json.parse? json).bind Record.ofJson? with
          | none => .error .badJson
          | some record => .ok (key, record)

namespace Table

/-- The interchange text: the lines of the flows in their order, each with a line feed. -/
def interchange (table : Table) : List Char :=
  table.flows.flatMap fun flow => recordLine flow.1 flow.2 ++ ['\n']

/-- Adds the records of lines; the first line has the given number. -/
def readLines (table : Table) (number : Nat) : List (List Char) → Except TableError Table
  | [] => .ok table
  | line :: rest =>
      if (trim line).isEmpty then readLines table (number + 1) rest
      else
        match readRecordLine line with
        | .ok (key, record) => readLines (table.absorb key record) (number + 1) rest
        | .error cause => .error ⟨number, cause⟩

def ofInterchange (text : List Char) : Except TableError Table :=
  readLines empty 1 (lines text)

end Table

end FlowAudit.Flow
