import FlowAudit.Distribution.Group
import FlowAudit.Flow.Interchange
import FlowAudit.Profile.Basic
import FlowAudit.Trace.Completion

set_option autoImplicit false

/-!
Reports on completion times: one distribution for each label of a profile, over all flows of the
files that belong to it. A file that no rule takes, or that holds no flow records, adds nothing.
-/
namespace FlowAudit.Distribution

open FlowAudit.Flow FlowAudit.Trace

/-- A file that may hold flow records. -/
structure RecordFile where
  name : String
  text : List Char
  deriving DecidableEq, Repr

/-- What the files of a label have in common. -/
structure Contribution where
  label : String
  samples : CompletionSamples

/-- What a file adds to a report at an ack number. -/
def RecordFile.contribution? (file : RecordFile) (profile : Profile) (ack : UInt32) :
    Option Contribution :=
  match profile.label? file.name.toList, Table.ofInterchange file.text with
  | some label, .ok table => some ⟨label, completionTimesAt table ack⟩
  | _, _ => none

structure CompletionReport where
  packets : UInt32
  ack : UInt32
  incompleteFlows : Nat
  groups : List GroupEcdf

/-- The samples of a label, file after file. -/
def sampleGroup (contributions : List Contribution) (label : String) : SampleGroup where
  label
  samples := contributions.flatMap fun contribution =>
    if contribution.label = label then contribution.samples.times else []

namespace CompletionReport

/-- The report on some files. Each label has a group, in the order of the rules. -/
def ofFiles (profile : Profile) (packets ack : UInt32) (files : List RecordFile) :
    Except GroupError CompletionReport :=
  let contributions := files.filterMap fun file => file.contribution? profile ack
  let incomplete := contributions.flatMap fun contribution => contribution.samples.incomplete
  (distributions (profile.labels.map (sampleGroup contributions))).map fun groups =>
    ⟨packets, ack, incomplete.length, groups⟩

def toJson (report : CompletionReport) : Json.Value :=
  .object [
    Json.Value.member "packets" (.ofNat report.packets.toNat),
    Json.Value.member "ack" (.ofNat report.ack.toNat),
    Json.Value.member "incomplete_flows" (.ofNat report.incompleteFlows),
    Json.Value.member "groups" (.array (report.groups.map GroupEcdf.toJson))]

end CompletionReport

end FlowAudit.Distribution
