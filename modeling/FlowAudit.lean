import FlowAudit.Json.Fields
import FlowAudit.Json.Printer
import FlowAudit.Json.Reader
import FlowAudit.Text.Blank
import FlowAudit.Text.Cut
import FlowAudit.Text.Lines
import FlowAudit.Decimal.Layout
import FlowAudit.Decimal.Literal
import FlowAudit.Flow.Key
import FlowAudit.Flow.Record
import FlowAudit.Flow.Table
import FlowAudit.Flow.Interchange
import FlowAudit.Flow.Index
import FlowAudit.Trace.Completion
import FlowAudit.Trace.Line
import FlowAudit.Trace.PortRange
import FlowAudit.Trace.Reconstruction
import FlowAudit.Distribution.Ecdf
import FlowAudit.Distribution.Group
import FlowAudit.Verdict.Classification
import FlowAudit.Verdict.Evaluator
import FlowAudit.Verdict.Report
import FlowAudit.Toml.Item
import FlowAudit.Toml.Quoted
import FlowAudit.Toml.Reader
import FlowAudit.Profile.Basic
import FlowAudit.Profile.Document
import FlowAudit.Command.FileTree
import FlowAudit.Command.Request
import FlowAudit.Command.Run
import FlowAudit.Main
import FlowAudit.Proofs.Attempts
import FlowAudit.Proofs.Flow.Table
import FlowAudit.Proofs.Trace.Event
import FlowAudit.Proofs.Trace.Replay
import FlowAudit.Proofs.Trace.Reading
import FlowAudit.Proofs.Trace.Account
import FlowAudit.Proofs.Trace.Split
import FlowAudit.Proofs.Json.Number
import FlowAudit.Proofs.Json.Quoted
import FlowAudit.Proofs.Json.Reader
import FlowAudit.Proofs.Json.Printer
import FlowAudit.Proofs.Json.Grammar
import FlowAudit.Proofs.Json.Fields
import FlowAudit.Proofs.Text
import FlowAudit.Proofs.Flow.Key
import FlowAudit.Proofs.Flow.Observation
import FlowAudit.Proofs.Flow.Interchange
import FlowAudit.Proofs.Flow.Merge
import FlowAudit.Proofs.Flow.Concatenation
import FlowAudit.Proofs.Flow.Repetition
import FlowAudit.Proofs.Flow.Restriction
import FlowAudit.Proofs.Flow.Index
import FlowAudit.Proofs.Trace.Control
import FlowAudit.Proofs.Trace.Growth
import FlowAudit.Proofs.Trace.Frame
import FlowAudit.Proofs.Decimal.Finite
import FlowAudit.Proofs.Decimal.Order
import FlowAudit.Proofs.Decimal.Rounding
import FlowAudit.Proofs.Decimal.Arithmetic
import FlowAudit.Proofs.Decimal.Quotient
import FlowAudit.Proofs.Decimal.Literal
import FlowAudit.Proofs.Decimal.Layout
import FlowAudit.Proofs.Trace.Times
import FlowAudit.Proofs.Trace.Completion
import FlowAudit.Proofs.Trace.Samples
import FlowAudit.Proofs.Distribution.CompletionReport
import FlowAudit.Proofs.Command.Extraction
import FlowAudit.Proofs.Profile.Labels
import FlowAudit.Proofs.Distribution.Contributions
import FlowAudit.Proofs.Distribution.Curve
import FlowAudit.Proofs.Distribution.Share
import FlowAudit.Proofs.Distribution.Printed
import FlowAudit.Proofs.Command.Completion
import FlowAudit.Proofs.Text.Reading
import FlowAudit.Proofs.Trace.Line
import FlowAudit.Proofs.Trace.Fault
import FlowAudit.Proofs.Verdict.Report
import FlowAudit.Proofs.Verdict.Snapshot
import FlowAudit.Proofs.Verdict.Settings
import FlowAudit.Proofs.Verdict.Assessment
import FlowAudit.Proofs.Verdict.Tightening
import FlowAudit.Proofs.Verdict.Posterior
import FlowAudit.Proofs.Command.FileTree
import FlowAudit.Proofs.Command.Classification
import FlowAudit.Proofs.Command.Words
import FlowAudit.Proofs.Command.Findings
import FlowAudit.Proofs.Command.Run
import FlowAudit.Proofs.Command.Configuration
