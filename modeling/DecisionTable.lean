import DecisionTable.Action.Operator
import DecisionTable.Blake3.Compression
import DecisionTable.Blake3.Tree
import DecisionTable.Coercion
import DecisionTable.Condition.Basic
import DecisionTable.Condition.Combinator
import DecisionTable.Condition.Literal
import DecisionTable.Condition.Operator
import DecisionTable.Engine.Application
import DecisionTable.Engine.Basic
import DecisionTable.Engine.Config
import DecisionTable.Engine.Pass
import DecisionTable.Engine.Store
import DecisionTable.Engine.Upload
import DecisionTable.Entries
import DecisionTable.Fact.Audit
import DecisionTable.Fact.Basic
import DecisionTable.Json.Basic
import DecisionTable.Json.Form
import DecisionTable.Json.Reader
import DecisionTable.Json.Record
import DecisionTable.Json.Token
import DecisionTable.Json.WrittenNumber
import DecisionTable.LoadError
import DecisionTable.Network.Basic
import DecisionTable.Network.Walk
import DecisionTable.Number.Binary64
import DecisionTable.Number.Digits
import DecisionTable.Number.Layout
import DecisionTable.Number.Numeral
import DecisionTable.Number.Scaling
import DecisionTable.Number.Shortest
import DecisionTable.Numbering
import DecisionTable.Proofs.Action.Operator
import DecisionTable.Proofs.Batch
import DecisionTable.Proofs.Coercion
import DecisionTable.Proofs.Condition.Comparison
import DecisionTable.Proofs.Condition.Fallback
import DecisionTable.Proofs.Condition.Spelling
import DecisionTable.Proofs.Document.Acceptance
import DecisionTable.Proofs.Document.Arrangement
import DecisionTable.Proofs.Document.Checks
import DecisionTable.Proofs.Document.Drafts
import DecisionTable.Proofs.Document.Outline
import DecisionTable.Proofs.Engine.Application
import DecisionTable.Proofs.Engine.Footprint
import DecisionTable.Proofs.Engine.History
import DecisionTable.Proofs.Engine.Pass
import DecisionTable.Proofs.Engine.Relevance
import DecisionTable.Proofs.Engine.Run
import DecisionTable.Proofs.Engine.Trail
import DecisionTable.Proofs.Engine.Transfer
import DecisionTable.Proofs.Engine.Upload
import DecisionTable.Proofs.Fact.Entries
import DecisionTable.Proofs.Fact.Sums
import DecisionTable.Proofs.Fact.Types
import DecisionTable.Proofs.Network.Bounds
import DecisionTable.Proofs.Network.Matching
import DecisionTable.Proofs.Network.Registration
import DecisionTable.Proofs.Network.Sharing
import DecisionTable.Proofs.Network.Walk
import DecisionTable.Proofs.Number.Datum
import DecisionTable.Proofs.Number.Denotation
import DecisionTable.Proofs.Number.Layout
import DecisionTable.Proofs.Number.Rounding
import DecisionTable.Proofs.Number.Spelling
import DecisionTable.Proofs.Occurrences
import DecisionTable.Proofs.RuleSet.Arithmetic
import DecisionTable.Proofs.RuleSet.Assignment
import DecisionTable.Proofs.RuleSet.Authored
import DecisionTable.Proofs.RuleSet.Indices
import DecisionTable.Proofs.RuleSet.Mirror
import DecisionTable.Proofs.RuleSet.Scanning
import DecisionTable.Proofs.RuleSet.Sequence
import DecisionTable.Proofs.RuleSet.Verdict
import DecisionTable.Proofs.Snapshot.Compact
import DecisionTable.Proofs.Snapshot.Header
import DecisionTable.Proofs.Snapshot.Prefix
import DecisionTable.Proofs.Snapshot.Reading
import DecisionTable.Proofs.Snapshot.RoundTrip
import DecisionTable.Proofs.Snapshot.Stability
import DecisionTable.Proofs.Snapshot.Tampering
import DecisionTable.Proofs.Table.Lookup
import DecisionTable.Proofs.Table.Normalised
import DecisionTable.RuleName
import DecisionTable.RuleSet.Actions
import DecisionTable.RuleSet.Basic
import DecisionTable.RuleSet.Conditions
import DecisionTable.RuleSet.Document
import DecisionTable.RuleSet.Draft
import DecisionTable.RuleSet.Model
import DecisionTable.Snapshot.Basic
import DecisionTable.Snapshot.Payload
import DecisionTable.Snapshot.Varint
import DecisionTable.SortedMap
import DecisionTable.Table.Columns
import DecisionTable.Table.Rule
import DecisionTable.Text.Blank
import DecisionTable.Text.Match
import DecisionTable.Text.Utf8
