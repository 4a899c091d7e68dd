import FlowAudit.Distribution.Ecdf
import FlowAudit.Json.Printer

set_option autoImplicit false

/-!
Distributions of labelled groups of samples.
-/
namespace FlowAudit.Distribution

/-- The samples that were collected under one condition. -/
structure SampleGroup where
  label : String
  samples : List Float := []

structure GroupEcdf where
  label : String
  sampleCount : Nat
  ecdf : Ecdf

inductive GroupError where
  | emptyGroup (label : String)
  | nan (index : Nat)
  deriving DecidableEq, Repr

def GroupError.message : GroupError → String
  | emptyGroup label => s!"group '{label}' has no samples"
  | nan index => (SampleError.nan index).message

def SampleGroup.distribution (group : SampleGroup) : Except GroupError GroupEcdf :=
  match Ecdf.ofSamples group.samples with
  | .ok ecdf => .ok ⟨group.label, group.samples.length, ecdf⟩
  | .error .empty => .error (.emptyGroup group.label)
  | .error (.nan index) => .error (.nan index)

/-- A distribution for each group, in their order. The first group without one fails them all. -/
def distributions (groups : List SampleGroup) : Except GroupError (List GroupEcdf) :=
  groups.mapM SampleGroup.distribution

def GroupEcdf.toJson (group : GroupEcdf) : Json.Value :=
  let column (entry : Step → Float) : List Json.Value :=
    group.ecdf.steps.map fun step => .ofFloat (entry step)
  .object [
    Json.Value.member "label" (.ofText group.label),
    Json.Value.member "sample_count" (.ofNat group.sampleCount),
    Json.Value.member "values" (.array (column Step.value)),
    Json.Value.member "probabilities" (.array (column Step.probability))]

end FlowAudit.Distribution
