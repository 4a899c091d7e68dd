import FlowAudit.Command.Failure
import FlowAudit.Command.Request
import FlowAudit.Distribution.CompletionReport
import FlowAudit.Profile.Document
import FlowAudit.Trace.Reconstruction
import FlowAudit.Verdict.Report

set_option autoImplicit false

/-!
Results of requests. A result is a text, or the first failure: of the profile, then of the settings
that the task needs, then of its inputs in the order in which they are named.
-/
namespace FlowAudit.Command

open FlowAudit.Distribution FlowAudit.Flow FlowAudit.Trace FlowAudit.Verdict

namespace Files

def readAs (files : Files) (role : FileRole) (path : String) : Except Failure (List Char) :=
  (files.text path).mapError (.unreadable role path)

/-- The profile at a path, or the default one. -/
def profile (files : Files) : Option String → Except Failure Profile
  | none => .ok {}
  | some path => do
      let text ← files.readAs .profile path
      match Profile.ofDocument? text with
      | some profile => return profile
      | none => throw .badProfile

/-- The flows of one trace. -/
def traceTable (files : Files) (control : PortRange) (path : String) : Except Failure Table := do
  return (reconstructText control (← files.readAs .trace path)).table

/-- The flows of all traces, merged in the order of the traces. -/
def extract (files : Files) (control : PortRange) (traces : List String) :
    Except Failure Table := do
  control.check.mapError .badControlRange
  let tables ← traces.mapM (files.traceTable control)
  return tables.foldl Table.merge Table.empty

/-- The snapshots of one document. -/
def snapshots (files : Files) (path : String) : Except Failure (List Snapshot) := do
  let text ← files.readAs .snapshots path
  match Snapshot.readDocument? text with
  | some snapshots => return snapshots
  | none => throw (.badSnapshots path)

/-- The report on one document. -/
def documentReport (files : Files) (evaluator : Evaluator) (path : String) :
    Except Failure Report := do
  return Report.ofSnapshots evaluator (← files.snapshots path)

/-- The reports on what an input names. Only files in a directory may be unusable. -/
def inputReports (files : Files) (evaluator : Evaluator) (input : String) :
    Except Failure (List Report) := do
  if (files input).isDirectory then
    let names ← (files.listing input).mapError (.unlistable input)
    return names.filterMap fun name =>
      (files.documentReport evaluator (child input name)).toOption
  else
    return [← files.documentReport evaluator input]

/-- The report on all inputs, in their order. -/
def classify (files : Files) (settings : Verdict.Settings) (inputs : List String) :
    Except Failure Report := do
  let evaluator ← (Evaluator.ofSettings settings).mapError .badSettings
  let reports ← inputs.mapM (files.inputReports evaluator)
  return reports.flatten.foldl Report.extend {}

/-- The files of a directory that hold text, in the order of their names. -/
def recordFiles (files : Files) (directory : String) : Except Failure (List RecordFile) := do
  let names ← (files.listing directory).mapError (.unlistable directory)
  return names.filterMap fun name =>
    (files.text (child directory name)).toOption.map (RecordFile.mk name)

/-- The completion times over a directory. -/
def completion (files : Files) (profile : Profile) (directory : String) (packets : UInt32) :
    Except Failure CompletionReport := do
  if profile.groups.isEmpty then throw .noGroupRules
  match profile.settings.completion.completionAck packets with
  | none => throw (.packetOverflow packets)
  | some ack =>
      let found ← files.recordFiles directory
      (CompletionReport.ofFiles profile packets ack found).mapError .noDistributions

end Files

/-- A report as it is printed: indented, with its last line ended. -/
def reportText (report : Json.Value) : List Char :=
  Json.indented report ++ ['\n']

/-- The text that a task asks for, under a profile. -/
def Task.result (task : Task) (files : Files) (profile : Profile) : Except Failure (List Char) :=
  match task with
  | .extract traces =>
      (files.extract profile.settings.controlPorts traces).map Table.interchange
  | .classify inputs =>
      (files.classify profile.settings.verdict inputs).map fun report => reportText report.toJson
  | .completion directory packets =>
      (files.completion profile directory packets).map fun report => reportText report.toJson

/-- The text that a request asks for. -/
def Request.result (request : Request) (files : Files) : Except Failure (List Char) := do
  request.task.result files (← files.profile request.config)

end FlowAudit.Command
