import VaultTransfers.Amount
import VaultTransfers.Asset
import VaultTransfers.Bus
import VaultTransfers.Evm.Address
import VaultTransfers.Evm.Keccak
import VaultTransfers.Http.Api
import VaultTransfers.Http.Request
import VaultTransfers.Http.Response
import VaultTransfers.Json.Basic
import VaultTransfers.Json.Binary64
import VaultTransfers.Json.Fault
import VaultTransfers.Json.Lexeme
import VaultTransfers.Json.Printer
import VaultTransfers.Json.Reader
import VaultTransfers.Json.Record
import VaultTransfers.Json.Skip
import VaultTransfers.Node.Chain
import VaultTransfers.Node.Client
import VaultTransfers.Node.Fault
import VaultTransfers.Node.Log
import VaultTransfers.Node.Value
import VaultTransfers.Pipeline.Consume
import VaultTransfers.Pipeline.Materialize
import VaultTransfers.Pipeline.Publish
import VaultTransfers.Pipeline.Scan
import VaultTransfers.Powers
import VaultTransfers.Program
import VaultTransfers.Session.Run
import VaultTransfers.Session.Services
import VaultTransfers.Session.View
import VaultTransfers.Session.World
import VaultTransfers.Settings
import VaultTransfers.Sql.Orders
import VaultTransfers.Sql.Outbox
import VaultTransfers.Sql.Scanner
import VaultTransfers.Sql.Schema
import VaultTransfers.Sql.Statement
import VaultTransfers.Store.Cursor
import VaultTransfers.Store.Fault
import VaultTransfers.Store.OrderTable
import VaultTransfers.Store.Outbox
import VaultTransfers.Store.Rows
import VaultTransfers.Store.WatchList
import VaultTransfers.Text.Blank
import VaultTransfers.Text.Hex
import VaultTransfers.Text.Integer
import VaultTransfers.Text.Printable
import VaultTransfers.Text.Quoted
import VaultTransfers.Text.Utf8
import VaultTransfers.Time.Calendar
import VaultTransfers.Time.Instant
import VaultTransfers.Time.Rfc3339
import VaultTransfers.Transfer.Event
import VaultTransfers.Transfer.Kind
import VaultTransfers.Transfer.Message
import VaultTransfers.Transfer.Order
import VaultTransfers.Transfer.Payload
import VaultTransfers.Transfer.Resolution
import VaultTransfers.Validation
import VaultTransfers.Proofs.Amount.Canonical
import VaultTransfers.Proofs.Amount.Estimate
import VaultTransfers.Proofs.Amount.Grammar
import VaultTransfers.Proofs.Amount.Numeral
import VaultTransfers.Proofs.Amount.Words
import VaultTransfers.Proofs.Codec.Calendar
import VaultTransfers.Proofs.Codec.Date
import VaultTransfers.Proofs.Codec.Lexeme
import VaultTransfers.Proofs.Codec.Listing
import VaultTransfers.Proofs.Codec.Locality
import VaultTransfers.Proofs.Codec.Message
import VaultTransfers.Proofs.Codec.Microseconds
import VaultTransfers.Proofs.Codec.Object
import VaultTransfers.Proofs.Codec.Payload
import VaultTransfers.Proofs.Codec.Skipping
import VaultTransfers.Proofs.Codec.Text
import VaultTransfers.Proofs.Codec.Tolerance
import VaultTransfers.Proofs.Consume.Offsets
import VaultTransfers.Proofs.Consume.Progress
import VaultTransfers.Proofs.Consume.Recovery
import VaultTransfers.Proofs.Consume.Turn
import VaultTransfers.Proofs.Http.Registration
import VaultTransfers.Proofs.Http.Serving
import VaultTransfers.Proofs.Node.Retries
import VaultTransfers.Proofs.Orders.Change
import VaultTransfers.Proofs.Orders.Closing
import VaultTransfers.Proofs.Orders.Consistency
import VaultTransfers.Proofs.Orders.Direct
import VaultTransfers.Proofs.Orders.Finality
import VaultTransfers.Proofs.Orders.Isolation
import VaultTransfers.Proofs.Orders.Latest
import VaultTransfers.Proofs.Orders.Lookup
import VaultTransfers.Proofs.Orders.Mirror
import VaultTransfers.Proofs.Orders.Outcome
import VaultTransfers.Proofs.Orders.Reconstruction
import VaultTransfers.Proofs.Orders.Renaming
import VaultTransfers.Proofs.Orders.Repetition
import VaultTransfers.Proofs.Orders.Replay
import VaultTransfers.Proofs.Orders.Stream
import VaultTransfers.Proofs.Orders.Verdict
import VaultTransfers.Proofs.Program.Pool
import VaultTransfers.Proofs.Program.Runs
import VaultTransfers.Proofs.Publish.Batch
import VaultTransfers.Proofs.Publish.Discipline
import VaultTransfers.Proofs.Publish.Interruption
import VaultTransfers.Proofs.Publish.Lifecycle
import VaultTransfers.Proofs.Publish.Order
import VaultTransfers.Proofs.Publish.Outcome
import VaultTransfers.Proofs.Publish.Stutter
import VaultTransfers.Proofs.Scan.Chunking
import VaultTransfers.Proofs.Scan.Consulting
import VaultTransfers.Proofs.Scan.Coverage
import VaultTransfers.Proofs.Scan.Fleet
import VaultTransfers.Proofs.Scan.Qualifying
import VaultTransfers.Proofs.Scan.Range
import VaultTransfers.Proofs.Scan.Recording
import VaultTransfers.Proofs.Scan.Remembering
import VaultTransfers.Proofs.Scan.Rescan
import VaultTransfers.Proofs.Scan.Resolution
import VaultTransfers.Proofs.Scan.Smooth
import VaultTransfers.Proofs.Scan.Tick
import VaultTransfers.Proofs.Session.Exactness
import VaultTransfers.Proofs.Session.Steps
import VaultTransfers.Proofs.Session.Views
import VaultTransfers.Proofs.Settings.Running
import VaultTransfers.Proofs.Settings.Variables
import VaultTransfers.Proofs.Sql.Claim
import VaultTransfers.Proofs.Sql.Columns
import VaultTransfers.Proofs.Store.Claiming
import VaultTransfers.Proofs.Store.Outbox
import VaultTransfers.Proofs.Store.Passage
import VaultTransfers.Proofs.Store.Rows
import VaultTransfers.Proofs.Transfer.Decoding
import VaultTransfers.Proofs.Transfer.Discovery
import VaultTransfers.Proofs.Transfer.Quote
import VaultTransfers.Proofs.Transfer.Spelling
import VaultTransfers.Proofs.Transfer.Stream
import VaultTransfers.Proofs.Transfer.Tokens
