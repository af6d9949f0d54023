import ContentIndex.Base64
import ContentIndex.Bytes
import ContentIndex.Database
import ContentIndex.Document
import ContentIndex.Glob
import ContentIndex.Graph.Basic
import ContentIndex.Graph.Compile
import ContentIndex.Graph.Diff
import ContentIndex.Graph.Kind
import ContentIndex.Graph.Matching
import ContentIndex.Graph.TypeLanguage
import ContentIndex.Index.Entries
import ContentIndex.Index.Error
import ContentIndex.Index.Generations
import ContentIndex.Index.Host
import ContentIndex.Index.Key
import ContentIndex.Index.Lock
import ContentIndex.Index.Program
import ContentIndex.Index.Rebuild
import ContentIndex.Index.Report
import ContentIndex.Index.Scan
import ContentIndex.Index.Update
import ContentIndex.Json.Basic
import ContentIndex.Json.Draft
import ContentIndex.Json.Printer
import ContentIndex.Json.Reader
import ContentIndex.Json.Record
import ContentIndex.Json.Token
import ContentIndex.Number.Binary64
import ContentIndex.Number.Decimal
import ContentIndex.Number.Shortest
import ContentIndex.OrderedMap
import ContentIndex.Query.Cursor
import ContentIndex.Query.Error
import ContentIndex.Query.Filter
import ContentIndex.Query.Listing
import ContentIndex.Query.Projection
import ContentIndex.Query.Request
import ContentIndex.Query.Resolve
import ContentIndex.Query.Selection
import ContentIndex.Query.Snapshot
import ContentIndex.Query.Validation
import ContentIndex.Record.Basic
import ContentIndex.Record.Normalization
import ContentIndex.Record.SortValue
import ContentIndex.Schema.Definition
import ContentIndex.Schema.Reading
import ContentIndex.Schema.Writing
import ContentIndex.Schema.Yaml
import ContentIndex.Settings
import ContentIndex.Sha256
import ContentIndex.Source.Basic
import ContentIndex.Source.Directory
import ContentIndex.Store.Basic
import ContentIndex.Store.Range
import ContentIndex.Text.Blank
import ContentIndex.Text.CaseMap
import ContentIndex.Text.Letters
import ContentIndex.Text.Quoted
import ContentIndex.Text.Words
import ContentIndex.Time.Instant
import ContentIndex.Time.Reading
import ContentIndex.Yaml.Alias
import ContentIndex.Yaml.Content
import ContentIndex.Yaml.Cursor
import ContentIndex.Yaml.Node
import ContentIndex.Yaml.Printer
import ContentIndex.Yaml.Record
import ContentIndex.Yaml.Scalar
import ContentIndex.Yaml.Token
import ContentIndex.Proofs.Batch
import ContentIndex.Proofs.PrefixRange
import ContentIndex.Proofs.Text
import ContentIndex.Proofs.KeyLayout
import ContentIndex.Proofs.Declarations
import ContentIndex.Proofs.Conformance
import ContentIndex.Proofs.NumberText
import ContentIndex.Proofs.JsonReading
import ContentIndex.Proofs.StoredValues
import ContentIndex.Proofs.Exchange
import ContentIndex.Proofs.Protocol
import ContentIndex.Proofs.RebuildProtocol
import ContentIndex.Proofs.Interleaving
import ContentIndex.Proofs.UpdateProtocol
import ContentIndex.Proofs.RecordEntries
import ContentIndex.Proofs.Runs
import ContentIndex.Proofs.SwapSafety
import ContentIndex.Proofs.StaleClearing
import ContentIndex.Proofs.Fingerprint
import ContentIndex.Proofs.Changes
import ContentIndex.Proofs.Contents
import ContentIndex.Proofs.Exclusion
import ContentIndex.Proofs.Rewriting
import ContentIndex.Proofs.Consistency
import ContentIndex.Proofs.Alone
import ContentIndex.Proofs.Ranges
import ContentIndex.Proofs.Reading
import ContentIndex.Proofs.FreshRebuild
import ContentIndex.Proofs.Lookup
import ContentIndex.Proofs.QueryReads
import ContentIndex.Proofs.ExactRebuild
import ContentIndex.Proofs.Upkeep
import ContentIndex.Proofs.Succession
import ContentIndex.Proofs.Retention
import ContentIndex.Proofs.SortOrder
import ContentIndex.Proofs.SortedListing
import ContentIndex.Proofs.Pages
import ContentIndex.Proofs.Cursors
import ContentIndex.Proofs.Projections
import ContentIndex.Proofs.Paging
import ContentIndex.Proofs.FailedRebuild
import ContentIndex.Proofs.Rereading
import ContentIndex.Proofs.Outline
import ContentIndex.Proofs.References
import ContentIndex.Proofs.Convergence
import ContentIndex.Proofs.DefaultOrders
import ContentIndex.Proofs.Ownership
import ContentIndex.Proofs.Following
import ContentIndex.Proofs.RebuildHistory
import ContentIndex.Proofs.LostUpdates
import ContentIndex.Proofs.Confinement
import ContentIndex.Proofs.Spelling
import ContentIndex.Proofs.Corruption
import ContentIndex.Proofs.TextOrder
import ContentIndex.Proofs.Filters
import ContentIndex.Proofs.SortKeys
import ContentIndex.Proofs.Calendar
import ContentIndex.Proofs.InstantText
import ContentIndex.Proofs.Chronology
import ContentIndex.Proofs.ExactDoubles
import ContentIndex.Proofs.InstantReading
import ContentIndex.Proofs.ReadBack
import ContentIndex.Proofs.FilterLaws
import ContentIndex.Proofs.Refusals
import ContentIndex.Proofs.WellFormedSchemas
import ContentIndex.Proofs.Traversals
import ContentIndex.Proofs.Mirrors
import ContentIndex.Proofs.Locations
import ContentIndex.Proofs.Answers
import ContentIndex.Proofs.Discriminators
import ContentIndex.Proofs.Announcements
import ContentIndex.Proofs.YamlEntries
import ContentIndex.Proofs.Rounding
import ContentIndex.Proofs.Allocation
import ContentIndex.Proofs.CursorScope
import ContentIndex.Proofs.Undisturbed
import ContentIndex.Proofs.WriteBack
import ContentIndex.Proofs.Clearing
import ContentIndex.Proofs.LiveScans
import ContentIndex.Proofs.Trees
import ContentIndex.Proofs.CanonicalPaths
import ContentIndex.Proofs.HeldFiles
import ContentIndex.Proofs.SourceAgreement
import ContentIndex.Proofs.CapitalNames
import ContentIndex.Proofs.SchemaLanguage
import ContentIndex.Proofs.CompleteGraphs
import ContentIndex.Proofs.TypeSites
import ContentIndex.Proofs.ClosedTypes
import ContentIndex.Proofs.DistinctTypes
import ContentIndex.Proofs.DistinctKeys
import ContentIndex.Proofs.FrontMatter
