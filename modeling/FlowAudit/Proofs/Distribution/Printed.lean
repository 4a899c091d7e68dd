import FlowAudit.Distribution.CompletionReport
import FlowAudit.Proofs.Decimal.Layout
import FlowAudit.Proofs.Json.Fields

set_option autoImplicit false

/-!
Printed reports on completion times. The value that is printed shows each number of the report under its
name, and the groups in their order (`CompletionReport.isShown_toJson`); its texts are JSON texts whatever
the labels and the samples are (`CompletionReport.wellSpelled_toJson`).
-/
namespace FlowAudit.Json

open FlowAudit.Text

theorem wellSpelled_ofNat (number : Nat) : WellSpelled (.ofNat number) :=
  .number (Number.isSpelling_decimal number)

theorem wellSpelled_ofText (text : String) : WellSpelled (.ofText text) :=
  .string (Quoted.isSpelling_spell text.toList)

theorem wellSpelled_ofFloat (value : Float) : WellSpelled (.ofFloat value) := by
  rw [Value.ofFloat]
  split
  · exact .number (Decimal.isSpelling_finite value)
  · exact .null

theorem wellSpelled_members {fields : List (String × Value)}
    (each : ∀ field ∈ fields, WellSpelled field.2) :
    WellSpelled (.object (fields.map fun field => Value.member field.1 field.2)) := by
  refine wellSpelled_object_iff.mpr (List.forall_mem_map.mpr ?_)
  intro field inside
  exact ⟨Quoted.isSpelling_spell field.1.toList, each field inside⟩

end FlowAudit.Json

namespace FlowAudit.Distribution

open FlowAudit.Json FlowAudit.Text

namespace GroupEcdf

/-- The members that a group is printed with. -/
structure IsShown (group : GroupEcdf) (shown : Value) : Prop where
  label : ∃ spelling, shown.HasField "label" (.string spelling) ∧
    Quoted.Means spelling group.label.toList
  sampleCount : shown.HasField "sample_count" (.number (decimal group.sampleCount))
  values : shown.HasField "values"
    (.array (group.ecdf.steps.map fun step => .ofFloat step.value))
  probabilities : shown.HasField "probabilities"
    (.array (group.ecdf.steps.map fun step => .ofFloat step.probability))

/-- The fields of a group under their names. -/
def fields (group : GroupEcdf) : List (String × Value) :=
  [("label", .ofText group.label), ("sample_count", .ofNat group.sampleCount),
    ("values", .array (group.ecdf.steps.map fun step => .ofFloat step.value)),
    ("probabilities", .array (group.ecdf.steps.map fun step => .ofFloat step.probability))]

theorem toJson_eq (group : GroupEcdf) :
    group.toJson = .object (group.fields.map fun field => Value.member field.1 field.2) := rfl

theorem isShown_toJson (group : GroupEcdf) : group.IsShown group.toJson where
  label := ⟨_, Value.hasField_of_members group.fields rfl, Quoted.means_spell group.label.toList⟩
  sampleCount := Value.hasField_of_members group.fields rfl
  values := Value.hasField_of_members group.fields rfl
  probabilities := Value.hasField_of_members group.fields rfl

theorem wellSpelled_toJson (group : GroupEcdf) : WellSpelled group.toJson := by
  have column : ∀ entry : Step → Float,
      WellSpelled (.array (group.ecdf.steps.map fun step => .ofFloat (entry step))) := by
    intro entry
    exact wellSpelled_array_iff.mpr (List.forall_mem_map.mpr fun step _ => wellSpelled_ofFloat _)
  rw [toJson_eq]
  apply wellSpelled_members
  simp only [fields, List.forall_mem_cons, List.not_mem_nil, false_implies, implies_true, and_true]
  exact ⟨wellSpelled_ofText _, wellSpelled_ofNat _, column Step.value, column Step.probability⟩

end GroupEcdf

namespace CompletionReport

/-- The members that a report is printed with. Its groups are shown in their order. -/
structure IsShown (report : CompletionReport) (shown : Value) : Prop where
  packets : shown.HasField "packets" (.number (decimal report.packets.toNat))
  ack : shown.HasField "ack" (.number (decimal report.ack.toNat))
  incompleteFlows : shown.HasField "incomplete_flows" (.number (decimal report.incompleteFlows))
  groups : ∃ groups, shown.HasField "groups" (.array groups) ∧
    List.Forall₂ GroupEcdf.IsShown report.groups groups

/-- The fields of a report under their names. -/
def fields (report : CompletionReport) : List (String × Value) :=
  [("packets", .ofNat report.packets.toNat), ("ack", .ofNat report.ack.toNat),
    ("incomplete_flows", .ofNat report.incompleteFlows),
    ("groups", .array (report.groups.map GroupEcdf.toJson))]

theorem toJson_eq (report : CompletionReport) :
    report.toJson = .object (report.fields.map fun field => Value.member field.1 field.2) := rfl

theorem isShown_toJson (report : CompletionReport) : report.IsShown report.toJson where
  packets := Value.hasField_of_members report.fields rfl
  ack := Value.hasField_of_members report.fields rfl
  incompleteFlows := Value.hasField_of_members report.fields rfl
  groups := ⟨_, Value.hasField_of_members report.fields rfl,
    List.forall₂_map_right_iff.mpr (List.forall₂_same.mpr fun group _ => group.isShown_toJson)⟩

theorem wellSpelled_toJson (report : CompletionReport) : WellSpelled report.toJson := by
  rw [toJson_eq]
  apply wellSpelled_members
  simp only [fields, List.forall_mem_cons, List.not_mem_nil, false_implies, implies_true, and_true]
  exact ⟨wellSpelled_ofNat _, wellSpelled_ofNat _, wellSpelled_ofNat _,
    wellSpelled_array_iff.mpr (List.forall_mem_map.mpr fun group _ => group.wellSpelled_toJson)⟩

end CompletionReport

end FlowAudit.Distribution
