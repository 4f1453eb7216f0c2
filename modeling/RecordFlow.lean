import RecordFlow.Csv.Layout
import RecordFlow.Error.Stored
import RecordFlow.Jsonl.Writer
import RecordFlow.Pipeline.File
import RecordFlow.Proofs.Csv.Account
import RecordFlow.Proofs.Csv.Encoder
import RecordFlow.Proofs.Csv.Rejection
import RecordFlow.Proofs.Csv.RoundTrip
import RecordFlow.Proofs.Files.Relisted
import RecordFlow.Proofs.Files.Tree
import RecordFlow.Proofs.Filter.Comparison
import RecordFlow.Proofs.Filter.Declarative
import RecordFlow.Proofs.Filter.Reordered
import RecordFlow.Proofs.Filter.Spelling
import RecordFlow.Proofs.Format.Sample
import RecordFlow.Proofs.Json.Compact
import RecordFlow.Proofs.Json.RoundTrip
import RecordFlow.Proofs.Json.Tokens
import RecordFlow.Proofs.Jsonl.Account
import RecordFlow.Proofs.Jsonl.Failure
import RecordFlow.Proofs.Jsonl.Reports
import RecordFlow.Proofs.Jsonl.RoundTrip
import RecordFlow.Proofs.Path.Dotted
import RecordFlow.Proofs.Path.Edits
import RecordFlow.Proofs.Path.Failure
import RecordFlow.Proofs.Path.Grammar
import RecordFlow.Proofs.Path.Layout
import RecordFlow.Proofs.Path.Lens
import RecordFlow.Proofs.Path.Replay
import RecordFlow.Proofs.Path.Spelling
import RecordFlow.Proofs.Pipeline.Steps
import RecordFlow.Proofs.Sink.Delivery
import RecordFlow.Proofs.Source.Content
import RecordFlow.Proofs.Source.JsonFiles
import RecordFlow.Proofs.Store.Place
import RecordFlow.Proofs.Store.RoundTrip
import RecordFlow.Proofs.Stream.Calls
import RecordFlow.Proofs.Stream.Counters
import RecordFlow.Proofs.Stream.Run
import RecordFlow.Proofs.Text.Trim
import RecordFlow.Proofs.Transform.ChildOrder
import RecordFlow.Proofs.Transform.Declarative
import RecordFlow.Proofs.Transform.Distinct
import RecordFlow.Proofs.Transform.Fill
import RecordFlow.Proofs.Transform.Independence
import RecordFlow.Proofs.Transform.KeyOrder
import RecordFlow.Proofs.Transform.Outcome
import RecordFlow.Proofs.Transform.Parallel
import RecordFlow.Proofs.Transform.Spelling
import RecordFlow.Proofs.Transform.SplitJoin
import RecordFlow.Proofs.Transform.Writes
import RecordFlow.Proofs.Value.Equality
import RecordFlow.Proofs.Value.Merge
import RecordFlow.Proofs.Value.Reordered
import RecordFlow.Proofs.Value.Sameness
import RecordFlow.Proofs.Value.Shape
import RecordFlow.Sink.Stats
import RecordFlow.Source.Open
import RecordFlow.Store.Basic
