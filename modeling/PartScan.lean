import PartScan.Json.Reader
import PartScan.Main
import PartScan.Proofs.Parenthesis.Depth
import PartScan.Proofs.Scan.Invariant
import PartScan.Proofs.Scan.Stack
import PartScan.Proofs.Segment.Reading
import PartScan.Proofs.Segment.Tokenize
import PartScan.Proofs.Parenthesis.Partner
import PartScan.Proofs.Scan.Nesting
import PartScan.Proofs.Scan.Checked
import PartScan.Proofs.Scan.Outcome
import PartScan.Proofs.Scan.Suspension
import PartScan.Proofs.Scheduler.Aside
import PartScan.Proofs.Scheduler.Step
import PartScan.Proofs.Scheduler.Quiet
import PartScan.Proofs.Scheduler.History
import PartScan.Proofs.Scheduler.Lone
import PartScan.Proofs.Scheduler.Ledger
import PartScan.Proofs.Number.Percent
import PartScan.Proofs.Number.Increase
import PartScan.Proofs.Scheduler.Cancellation
import PartScan.Proofs.Scheduler.Completion
import PartScan.Proofs.Scan.Progress
import PartScan.Proofs.Parenthesis.Mate
import PartScan.Proofs.Scan.Siblings
import PartScan.Proofs.Scan.Agreement
import PartScan.Proofs.Scan.Reports
import PartScan.Proofs.Scheduler.Active
import PartScan.Proofs.Scheduler.Calls
import PartScan.Proofs.Scheduler.Wait
import PartScan.Proofs.Scheduler.Answer
import PartScan.Proofs.Scheduler.Membership
import PartScan.Proofs.Scheduler.Request
import PartScan.Proofs.Scheduler.Gather
import PartScan.Proofs.Scheduler.CancelAll
import PartScan.Proofs.Scheduler.Renumber
import PartScan.Proofs.Scheduler.Without
import PartScan.Proofs.Scheduler.Omission
import PartScan.Proofs.Scheduler.Rotation
import PartScan.Proofs.Scheduler.Lineup
import PartScan.Proofs.Scheduler.Rounds
import PartScan.Proofs.Scheduler.Extract
import PartScan.Proofs.Scheduler.Journal
import PartScan.Proofs.Scheduler.Refusal
import PartScan.Proofs.Scheduler.Elsewhere
import PartScan.Proofs.Scheduler.Containment
import PartScan.Proofs.Settings.Check
import PartScan.Proofs.Settings.Layers
import PartScan.Proofs.Json.Grammar
import PartScan.Proofs.Json.Reading
import PartScan.Proofs.Json.Parts
import PartScan.Proofs.CommandLine.Report
import PartScan.Proofs.Lexeme.Form
import PartScan.Proofs.Lexeme.Tiling
import PartScan.Proofs.Number.Rounded
import PartScan.Json.StandIn
import PartScan.Proofs.Lexeme.Number
import PartScan.Proofs.Parenthesis.Search
import PartScan.Proofs.Word.Conservation
import PartScan.Proofs.Json.Tree
import PartScan.Proofs.Json.Plain
import PartScan.Proofs.Scan.Slices
import PartScan.Proofs.Scan.Pending
import PartScan.Proofs.CommandLine.Input
import PartScan.Proofs.Table.Reading
