import InventorySearch.Api.Exchange
import InventorySearch.Api.Request
import InventorySearch.Calendar.Timestamp
import InventorySearch.Command.Config
import InventorySearch.Command.Invocation
import InventorySearch.Command.Program
import InventorySearch.Filter.Parser
import InventorySearch.Filter.Primitive
import InventorySearch.Filter.Restriction
import InventorySearch.Main
import InventorySearch.Search.Assembly
import InventorySearch.Search.Condition
import InventorySearch.Search.Plan
import InventorySearch.Search.Schema
import InventorySearch.Store.Database
import InventorySearch.Store.Sample
import InventorySearch.Store.Search
import InventorySearch.Store.Session
import InventorySearch.Store.Table
import InventorySearch.Text.Basic
import InventorySearch.Text.Json
import InventorySearch.Text.Network
import InventorySearch.Proofs.Api.Categories
import InventorySearch.Proofs.Api.Lists
import InventorySearch.Proofs.Api.Requests
import InventorySearch.Proofs.Calendar.Numbering
import InventorySearch.Proofs.Calendar.Written
import InventorySearch.Proofs.Command.Documents
import InventorySearch.Proofs.Command.Expansion
import InventorySearch.Proofs.Command.History
import InventorySearch.Proofs.Command.Layers
import InventorySearch.Proofs.Filter.Alternatives
import InventorySearch.Proofs.Filter.Bytewise
import InventorySearch.Proofs.Filter.ClosingIndex
import InventorySearch.Proofs.Filter.Decomposition
import InventorySearch.Proofs.Filter.Derivability
import InventorySearch.Proofs.Filter.Faults
import InventorySearch.Proofs.Filter.Fragments
import InventorySearch.Proofs.Filter.Grammar
import InventorySearch.Proofs.Filter.Matching
import InventorySearch.Proofs.Filter.Merging
import InventorySearch.Proofs.Filter.Offsets
import InventorySearch.Proofs.Filter.Pointing
import InventorySearch.Proofs.Filter.Ranges
import InventorySearch.Proofs.Filter.Reading
import InventorySearch.Proofs.Filter.Redundancy
import InventorySearch.Proofs.Filter.Safety
import InventorySearch.Proofs.Filter.Shape
import InventorySearch.Proofs.Filter.Writing
import InventorySearch.Proofs.Outcome
import InventorySearch.Proofs.Search.Clauses
import InventorySearch.Proofs.Search.Conjunction
import InventorySearch.Proofs.Search.Decision
import InventorySearch.Proofs.Search.Declared
import InventorySearch.Proofs.Search.Deferral
import InventorySearch.Proofs.Search.Fields
import InventorySearch.Proofs.Search.Fitting
import InventorySearch.Proofs.Search.Form
import InventorySearch.Proofs.Search.Gathering
import InventorySearch.Proofs.Search.Grouping
import InventorySearch.Proofs.Search.Meaning
import InventorySearch.Proofs.Search.Placeholders
import InventorySearch.Proofs.Search.Planning
import InventorySearch.Proofs.Search.Regrouping
import InventorySearch.Proofs.Search.Rendering
import InventorySearch.Proofs.Search.Resolution
import InventorySearch.Proofs.Search.Settling
import InventorySearch.Proofs.Search.Slots
import InventorySearch.Proofs.Search.WhereClause
import InventorySearch.Proofs.Sql.Connectives
import InventorySearch.Proofs.Sql.Formula
import InventorySearch.Proofs.Sql.Reader
import InventorySearch.Proofs.Store.Acceptance
import InventorySearch.Proofs.Store.Categories
import InventorySearch.Proofs.Store.Clock
import InventorySearch.Proofs.Store.Closing
import InventorySearch.Proofs.Store.Conversion
import InventorySearch.Proofs.Store.Insertion
import InventorySearch.Proofs.Store.Integrity
import InventorySearch.Proofs.Store.Interfaces
import InventorySearch.Proofs.Store.Joining
import InventorySearch.Proofs.Store.Keys
import InventorySearch.Proofs.Store.Loading
import InventorySearch.Proofs.Store.Moments
import InventorySearch.Proofs.Store.Opening
import InventorySearch.Proofs.Store.Paging
import InventorySearch.Proofs.Store.Partition
import InventorySearch.Proofs.Store.Reachability
import InventorySearch.Proofs.Store.Rows
import InventorySearch.Proofs.Store.Runs
import InventorySearch.Proofs.Store.Transactions
import InventorySearch.Proofs.Text.Basic
import InventorySearch.Proofs.Text.Numeral
