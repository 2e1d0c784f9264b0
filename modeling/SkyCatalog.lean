import SkyCatalog.Assembly.Error
import SkyCatalog.Assembly.Registry
import SkyCatalog.CommandLine.Commands
import SkyCatalog.CommandLine.Reply
import SkyCatalog.CommandLine.Request
import SkyCatalog.Crossmatch.Cursor
import SkyCatalog.Crossmatch.EditDistance
import SkyCatalog.Crossmatch.Identification
import SkyCatalog.Crossmatch.Matcher
import SkyCatalog.Crossmatch.Outcome
import SkyCatalog.Crossmatch.Pass
import SkyCatalog.Crossmatch.Search
import SkyCatalog.Crossmatch.Selection
import SkyCatalog.Crossmatch.Solver
import SkyCatalog.Datum.Aggregate
import SkyCatalog.Datum.Basic
import SkyCatalog.Datum.Construct
import SkyCatalog.Datum.Error
import SkyCatalog.Datum.Family
import SkyCatalog.Datum.Parameter
import SkyCatalog.Datum.Stored
import SkyCatalog.Decimal.Binary
import SkyCatalog.Decimal.Layout
import SkyCatalog.Decimal.Reading
import SkyCatalog.Decimal.Shortest
import SkyCatalog.Holdings
import SkyCatalog.Json.Decode
import SkyCatalog.Json.Number
import SkyCatalog.Json.Reader
import SkyCatalog.Json.Value
import SkyCatalog.Json.Writer
import SkyCatalog.Json.Written
import SkyCatalog.Keyed
import SkyCatalog.Main
import SkyCatalog.Mapping.Conversion
import SkyCatalog.Mapping.Filter
import SkyCatalog.Mapping.Plan
import SkyCatalog.Mapping.Rule
import SkyCatalog.Proofs.Assembly.Building
import SkyCatalog.Proofs.Assembly.Construction
import SkyCatalog.Proofs.Assembly.Correspondence
import SkyCatalog.Proofs.Assembly.Invariant
import SkyCatalog.Proofs.Crossmatch.Alike
import SkyCatalog.Proofs.Crossmatch.Batch
import SkyCatalog.Proofs.Crossmatch.Batching
import SkyCatalog.Proofs.Crossmatch.Candidates
import SkyCatalog.Proofs.Crossmatch.Cones
import SkyCatalog.Proofs.Crossmatch.Cursor
import SkyCatalog.Proofs.Crossmatch.EditDistance
import SkyCatalog.Proofs.Crossmatch.EditScripts
import SkyCatalog.Proofs.Crossmatch.Failure
import SkyCatalog.Proofs.Crossmatch.Given
import SkyCatalog.Proofs.Crossmatch.History
import SkyCatalog.Proofs.Crossmatch.HistoryInvariant
import SkyCatalog.Proofs.Crossmatch.Interruption
import SkyCatalog.Proofs.Crossmatch.Pieces
import SkyCatalog.Proofs.Crossmatch.Positions
import SkyCatalog.Proofs.Crossmatch.Processed
import SkyCatalog.Proofs.Crossmatch.Retention
import SkyCatalog.Proofs.Crossmatch.Retrieval
import SkyCatalog.Proofs.Crossmatch.Round
import SkyCatalog.Proofs.Crossmatch.Scores
import SkyCatalog.Proofs.Crossmatch.Slices
import SkyCatalog.Proofs.Crossmatch.SolverTrees
import SkyCatalog.Proofs.Crossmatch.Toward
import SkyCatalog.Proofs.Datum.Checked
import SkyCatalog.Proofs.Datum.Majority
import SkyCatalog.Proofs.Datum.Parameters
import SkyCatalog.Proofs.Datum.Storage
import SkyCatalog.Proofs.Datum.WholeNumbers
import SkyCatalog.Proofs.Decimal.Bounds
import SkyCatalog.Proofs.Decimal.Exact
import SkyCatalog.Proofs.Decimal.Parts
import SkyCatalog.Proofs.Decimal.Rounding
import SkyCatalog.Proofs.Decimal.TotalOrder
import SkyCatalog.Proofs.Decimal.Whole
import SkyCatalog.Proofs.Decimal.WholeReading
import SkyCatalog.Proofs.Decimal.WholeWriting
import SkyCatalog.Proofs.Except
import SkyCatalog.Proofs.Holdings
import SkyCatalog.Proofs.Json.Tidy
import SkyCatalog.Proofs.Keyed
import SkyCatalog.Proofs.Mapping.Conversion
import SkyCatalog.Proofs.Mapping.Groups
import SkyCatalog.Proofs.Mapping.Reference
import SkyCatalog.Proofs.Mapping.Resolution
import SkyCatalog.Proofs.Mapping.Winners
import SkyCatalog.Proofs.Query.Acceptance
import SkyCatalog.Proofs.Query.Composition
import SkyCatalog.Proofs.Query.Grammar
import SkyCatalog.Proofs.Query.Lexemes
import SkyCatalog.Proofs.Query.Parentheses
import SkyCatalog.Proofs.Query.Postorder
import SkyCatalog.Proofs.Query.Precedence
import SkyCatalog.Proofs.Query.Refusal
import SkyCatalog.Proofs.Query.Reordering
import SkyCatalog.Proofs.Query.RoundTrip
import SkyCatalog.Proofs.Query.Scanning
import SkyCatalog.Proofs.Query.ShortCircuit
import SkyCatalog.Proofs.Query.Spans
import SkyCatalog.Proofs.Sky
import SkyCatalog.Proofs.TaskGroup.Accounts
import SkyCatalog.Proofs.TaskGroup.Waiting
import SkyCatalog.Proofs.Text.Blank
import SkyCatalog.Proofs.Text.Offset
import SkyCatalog.Proofs.Upload.Covered
import SkyCatalog.Quantity
import SkyCatalog.Query.Diagnostic
import SkyCatalog.Query.Expr
import SkyCatalog.Query.Fault
import SkyCatalog.Query.Lexer
import SkyCatalog.Query.Parser
import SkyCatalog.Query.Postfix
import SkyCatalog.Query.Span
import SkyCatalog.Query.Token
import SkyCatalog.Settings
import SkyCatalog.Sky
import SkyCatalog.TaskGroup
import SkyCatalog.Text.Blank
import SkyCatalog.Text.LetterCase
import SkyCatalog.Text.Lowercase
import SkyCatalog.Text.Offset
import SkyCatalog.Time.Calendar
import SkyCatalog.Time.Instant
import SkyCatalog.Upload.Statistics
import SkyCatalog.Upload.Store
import SkyCatalog.Upload.Submission
import SkyCatalog.Upload.Table
