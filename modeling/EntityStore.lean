import EntityStore.Binary.Binary64
import EntityStore.Binary.Format
import EntityStore.Bytes
import EntityStore.Cbor.Item
import EntityStore.Cbor.Json
import EntityStore.Cbor.Reader
import EntityStore.Codec.Basic
import EntityStore.Codec.Document
import EntityStore.Codec.Scalar
import EntityStore.Codec.Transform
import EntityStore.Config.Basic
import EntityStore.Config.Settings
import EntityStore.Decimal.Basic
import EntityStore.Decimal.Shortest
import EntityStore.Decimal.Style
import EntityStore.Digest.Sha256
import EntityStore.Error
import EntityStore.Event.Basic
import EntityStore.Event.Metrics
import EntityStore.Event.Trace
import EntityStore.Json.Basic
import EntityStore.Json.Printer
import EntityStore.Json.Reader
import EntityStore.Json.Written
import EntityStore.Key.Basic
import EntityStore.Key.Composite
import EntityStore.Key.Transform
import EntityStore.KeyRef
import EntityStore.Ledger.Accessor
import EntityStore.Ledger.Faulty
import EntityStore.Ledger.Memory
import EntityStore.OrderedMap
import EntityStore.Query.Builder
import EntityStore.Query.Combination
import EntityStore.Query.Document
import EntityStore.Query.RowSort
import EntityStore.Query.Selector
import EntityStore.Record
import EntityStore.Store.Action
import EntityStore.Store.Basic
import EntityStore.Store.Entry
import EntityStore.Store.Listing
import EntityStore.Store.RichQuery
import EntityStore.Text.Blank
import EntityStore.Text.Quoted
import EntityStore.Text.Split
import EntityStore.Text.Unprintable
import EntityStore.Text.Utf8
import EntityStore.Version
import EntityStore.Proofs.Key.Range
import EntityStore.Proofs.Ledger.Memory
import EntityStore.Proofs.Store.Answer
import EntityStore.Proofs.Store.Contents
import EntityStore.Proofs.Store.Request
import EntityStore.Proofs.Store.Refinement
import EntityStore.Proofs.Json.Texts
import EntityStore.Proofs.Json.Numbers
import EntityStore.Proofs.Json.Documents
import EntityStore.Proofs.KeyRef.Request
import EntityStore.Proofs.Store.Payload
import EntityStore.Proofs.KeyRef.Index
import EntityStore.Proofs.Ledger.Paging
import EntityStore.Proofs.Store.Listing
import EntityStore.Proofs.Store.Presence
import EntityStore.Proofs.Store.Isolation
import EntityStore.Proofs.Query.Constraints
import EntityStore.Proofs.Query.Parsing
import EntityStore.Proofs.Ledger.Recorded
import EntityStore.Proofs.Store.Frame
import EntityStore.Proofs.Store.Scan
import EntityStore.Proofs.Store.Cursor
import EntityStore.Proofs.Key.Split
import EntityStore.Proofs.Store.Reserved
import EntityStore.Proofs.Store.Effect
import EntityStore.Proofs.Store.Journal
import EntityStore.Proofs.KeyRef.Listing
import EntityStore.Proofs.Key.Hiding
import EntityStore.Proofs.Store.Agreement
import EntityStore.Proofs.Store.HiddenPlans
import EntityStore.Proofs.Store.Hiding
import EntityStore.Proofs.Binary.Rounding
import EntityStore.Proofs.Decimal.Shortest
import EntityStore.Proofs.Codec.Scalar
import EntityStore.Proofs.Store.Duplicates
import EntityStore.Proofs.Query.Sorting
import EntityStore.Proofs.Query.RowSorts
import EntityStore.Proofs.Store.Writing
import EntityStore.Proofs.Store.StoredKeys
import EntityStore.Proofs.Store.Atomicity
import EntityStore.Proofs.Event.Metrics
import EntityStore.Proofs.Store.Accounts
import EntityStore.Proofs.Store.Draining
import EntityStore.Proofs.Store.Mirrored
import EntityStore.Proofs.Binary.Order
import EntityStore.Proofs.Query.Kinds
import EntityStore.Proofs.Query.Integers
import EntityStore.Proofs.Text.Order
import EntityStore.Proofs.Ledger.Queries
import EntityStore.Proofs.Ledger.QueryPaging
import EntityStore.Proofs.Store.DocumentQueries
import EntityStore.Proofs.Key.Order
import EntityStore.Proofs.KeyRef.SchemaTag
import EntityStore.Proofs.Store.RowValues
import EntityStore.Proofs.Store.ReadBack
import EntityStore.Proofs.Json.Openings
import EntityStore.Proofs.Cbor.Openings
import EntityStore.Proofs.Store.Unseen
import EntityStore.Proofs.Query.Interleaving
import EntityStore.Proofs.Ledger.Bounds
import EntityStore.Proofs.Store.Prefixes
import EntityStore.Proofs.Store.Envelopes
import EntityStore.Proofs.Query.SortTokens
