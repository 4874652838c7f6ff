import DocStore.Bytes
import DocStore.Table
import DocStore.Double
import DocStore.Double.Decimal
import DocStore.Double.Literal
import DocStore.Value
import DocStore.Value.Order
import DocStore.Text.CharRanges
import DocStore.Text.Alphabetic
import DocStore.Text.Recent
import DocStore.Text.WordChar
import DocStore.Text.DecimalDigit
import DocStore.Text.Blank
import DocStore.Text.Extender
import DocStore.Text.Unprintable
import DocStore.Text.CaseFold
import DocStore.Text.Quoted
import DocStore.Text.Base64
import DocStore.Text.Utf8
import DocStore.Text.Numeral
import DocStore.Text.Uuid
import DocStore.Calendar
import DocStore.Calendar.Timestamp
import DocStore.Value.Decimal128
import DocStore.Value.Text
import DocStore.Path
import DocStore.Codec
import DocStore.Key
import DocStore.Store
import DocStore.Codec.Tagged
import DocStore.Codec.Bson
import DocStore.Codec.OrderedKey
import DocStore.Codec.MessagePack
import DocStore.Schema
import DocStore.EngineError
import DocStore.Work
import DocStore.Index
import DocStore.Sequence
import DocStore.Cursor
import DocStore.Cursor.Place
import DocStore.Pattern
import DocStore.Pattern.Parser
import DocStore.Failure
import DocStore.StableSort
import DocStore.Aggregate
import DocStore.Entity
import DocStore.Query
import DocStore.Query.Text
import DocStore.Evaluation
import DocStore.Plan
import DocStore.Search
import DocStore.Options
import DocStore.Records
import DocStore.Database
import DocStore.Proofs.Table
import DocStore.Proofs.Version
import DocStore.Proofs.Interleaving
import DocStore.Proofs.Schedule
import DocStore.Proofs.Sweeping
import DocStore.Proofs.Serial
import DocStore.Proofs.Bookkeeping
import DocStore.Proofs.KeyLayout
import DocStore.Proofs.KeyLists
import DocStore.Proofs.Runs
import DocStore.Proofs.Entries
import DocStore.Proofs.Mirror
import DocStore.Proofs.Upkeep
import DocStore.Proofs.Undoing
import DocStore.Proofs.Consistency
import DocStore.Proofs.Steady
import DocStore.Proofs.Found
import DocStore.Proofs.Keeping
import DocStore.Proofs.KeyCodecs
import DocStore.Proofs.Mutations
import DocStore.Proofs.Mirroring
import DocStore.Proofs.Pages
import DocStore.Proofs.Drains
import DocStore.Proofs.Draining
import DocStore.Proofs.Echoes
import DocStore.Proofs.Exact
import DocStore.Proofs.IndexValues
import DocStore.Proofs.Lookups
import DocStore.Proofs.AccessPaths
import DocStore.Proofs.Passes
import DocStore.Proofs.Doubles
import DocStore.Proofs.EqualKeys
import DocStore.Proofs.Unlisted
import DocStore.Proofs.Collection
import DocStore.Proofs.KeyFields
import DocStore.Proofs.QueryTrees
import DocStore.Proofs.IndexFailures
import DocStore.Proofs.Paging
import DocStore.Proofs.Settling
import DocStore.Proofs.Retesting
import DocStore.Proofs.Sharing
import DocStore.Proofs.Retrying
import DocStore.Proofs.Footprint
import DocStore.Proofs.Sequences
import DocStore.Proofs.Matching
import DocStore.Proofs.Leftovers
import DocStore.Proofs.Exchange
import DocStore.Proofs.Batches
import DocStore.Proofs.Isolation
import DocStore.Proofs.Uniqueness
import DocStore.Proofs.LiveScans
import DocStore.Proofs.ExactKeys
import DocStore.Proofs.ByteOrder
import DocStore.Proofs.SortedKeys
import DocStore.Proofs.Rounding
import DocStore.Proofs.ValueOrder
import DocStore.Proofs.SortOrder
import DocStore.Proofs.SameValues
import DocStore.Proofs.Sorting
import DocStore.Proofs.Grouping
import DocStore.Proofs.IndexOrder
import DocStore.Proofs.Building
import DocStore.Proofs.Reordering
import DocStore.Proofs.Alternatives
import DocStore.Proofs.Rearranging
import DocStore.Proofs.LargeOperands
import DocStore.Proofs.Backoff
