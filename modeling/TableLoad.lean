import TableLoad.Text.Blank
import TableLoad.Text.DecimalDigit
import TableLoad.Text.Escaped
import TableLoad.Text.HexDigit
import TableLoad.Text.Utf8
import TableLoad.Text.Quoted
import TableLoad.Number.Binary64
import TableLoad.Number.Shortest
import TableLoad.Keyed
import TableLoad.Json.Basic
import TableLoad.Json.Reader
import TableLoad.Json.Printer
import TableLoad.Value
import TableLoad.Dialect
import TableLoad.LoadError
import TableLoad.Template
import TableLoad.Column.LogicalType
import TableLoad.Column.LiteralDefault
import TableLoad.Document
import TableLoad.Column.Basic
import TableLoad.Column.ColumnSet
import TableLoad.TableRef
import TableLoad.Number.Written
import TableLoad.Coercion
import TableLoad.FieldMap
import TableLoad.Dataset.Basic
import TableLoad.Statement
import TableLoad.Session
import TableLoad.Batch.Partition
import TableLoad.Batch.Loader
import TableLoad.Database.Cast
import TableLoad.Database.Basic
import TableLoad.Database.Connection
import TableLoad.Database.Archive
import TableLoad.Record.Source
import TableLoad.Record.Lines
import TableLoad.Record.Elements
import TableLoad.Record.Input
import TableLoad.Destination
import TableLoad.Job.Basic
import TableLoad.Load
import TableLoad.Time.Duration
import TableLoad.Time.Date
import TableLoad.Time.Timestamp
import TableLoad.LoadStats
import TableLoad.Yaml.Character
import TableLoad.Yaml.Scalar.Gap
import TableLoad.Yaml.Scalar.Plain
import TableLoad.Yaml.Scalar.Quoted
import TableLoad.Yaml.Scalar.Block
import TableLoad.Yaml.Token
import TableLoad.Yaml.Node
import TableLoad.Yaml.Reading
import TableLoad.Yaml.Document
import TableLoad.File
import TableLoad.Job.Read
import TableLoad.CommandLine.Options
import TableLoad.CommandLine.Message
import TableLoad.CommandLine.Host
import TableLoad.CommandLine.Run
import TableLoad.Workspace
import TableLoad.Main
import TableLoad.Proofs.Partition
import TableLoad.Proofs.ColumnSet
import TableLoad.Proofs.Keyed
import TableLoad.Proofs.CoercedValue
import TableLoad.Proofs.TwoPass
import TableLoad.Proofs.Discovery
import TableLoad.Proofs.Rows
import TableLoad.Proofs.Reconciliation
import TableLoad.Proofs.Transaction
import TableLoad.Proofs.Commit
import TableLoad.Proofs.Connection
import TableLoad.Proofs.Outcomes
import TableLoad.Proofs.Load
import TableLoad.Proofs.Placeholder
import TableLoad.Proofs.Recorded
import TableLoad.Proofs.Alignment
import TableLoad.Proofs.Lifecycle
import TableLoad.Proofs.Rowwise
import TableLoad.Proofs.RowStore
import TableLoad.Proofs.Batching
import TableLoad.Proofs.DeclaredDefault
import TableLoad.Proofs.Ending
import TableLoad.Proofs.Trace
import TableLoad.Proofs.Skipping
import TableLoad.Proofs.Asking
import TableLoad.Proofs.Phase
import TableLoad.Proofs.Accounting
import TableLoad.Proofs.Deletion
import TableLoad.Proofs.RecordOrder
import TableLoad.Proofs.Utf8
import TableLoad.Proofs.JsonMachine
import TableLoad.Proofs.NestedJson
import TableLoad.Proofs.TrimmedJson
import TableLoad.Proofs.OpenJson
import TableLoad.Proofs.SourceAgreement
import TableLoad.Proofs.Course
import TableLoad.Proofs.LineByLine
import TableLoad.Proofs.Splitting
import TableLoad.Proofs.Occurrences
import TableLoad.Proofs.Rendering
import TableLoad.Proofs.DeletedRows
import TableLoad.Proofs.Characters
import TableLoad.Proofs.Magnitude
import TableLoad.Proofs.Rounding
import TableLoad.Proofs.WrittenNumber
import TableLoad.Proofs.IntegerValue
import TableLoad.Proofs.FloatColumn
import TableLoad.Proofs.LiteralPattern
import TableLoad.Proofs.DefaultPattern
import TableLoad.Proofs.WrittenDefault
import TableLoad.Proofs.ColumnForm
import TableLoad.Proofs.DistinctNames
import TableLoad.Proofs.Masking
import TableLoad.Proofs.ConnectionPairs
import TableLoad.Proofs.QualifiedName
import TableLoad.Proofs.ReadFailure
import TableLoad.Proofs.ElementCount
import TableLoad.Proofs.ReadingEnds
