import Peaks.Double
import Peaks.Decimal.Shortest
import Peaks.Decimal.Fixed
import Peaks.Text.Printable
import Peaks.Text.Classes
import Peaks.Text.Quoted
import Peaks.Text.Wrap
import Peaks.Payload.Basic
import Peaks.Payload.Show
import Peaks.Fault
import Peaks.Attempt
import Peaks.Payload.Compare
import Peaks.Surroundings
import Peaks.Order.Basic
import Peaks.Order.Catalogue
import Peaks.Search
import Peaks.StableSort
import Peaks.Position
import Peaks.Point
import Peaks.Pool
import Peaks.PointIndex
import Peaks.MaximaIndex
import Peaks.Staging
import Peaks.Scan
import Peaks.Journal
import Peaks.Source
import Peaks.Store
import Peaks.Editor
import Peaks.Lease
import Peaks.Workspace.Basic
import Peaks.Workspace.Handle
import Peaks.Workspace.Batch
import Peaks.Workspace.Cursor
import Peaks.NumericArray
import Peaks.Workspace.Build
import Peaks.Arguments
import Peaks.Version.Number
import Peaks.Version.Line
import Peaks.Version.Bump
import Peaks.Twister
import Peaks.Benchmark.Timing
import Peaks.Benchmark.Workload
import Peaks.Benchmark.Report
import Peaks.Main
import Peaks.Proofs.Attempt
import Peaks.Proofs.Ranking
import Peaks.Proofs.Search
import Peaks.Proofs.StableSort
import Peaks.Proofs.PointIndex
import Peaks.Proofs.LocalMaxima
import Peaks.Proofs.Staging
import Peaks.Proofs.EditEnds
import Peaks.Proofs.EditSteps
import Peaks.Proofs.Pool
import Peaks.Proofs.Editor
import Peaks.Proofs.Workspace
import Peaks.Proofs.WeakNumbers
import Peaks.Proofs.Calls
import Peaks.Proofs.FiniteMap
import Peaks.Proofs.BulkLoad
import Peaks.Proofs.Ahead
import Peaks.Proofs.Ownership
import Peaks.Proofs.Shelf
import Peaks.Proofs.Handles
import Peaks.Proofs.Steps
import Peaks.Proofs.Isolation
import Peaks.Proofs.Effects
import Peaks.Proofs.Owners
import Peaks.Proofs.Batches
import Peaks.Proofs.Versions
import Peaks.Proofs.Walks
import Peaks.Proofs.Heirs
import Peaks.Proofs.Settled
import Peaks.Proofs.Undisturbed
import Peaks.Proofs.Keys
import Peaks.Proofs.Recency
import Peaks.Proofs.Traces
import Peaks.Proofs.Unruly
import Peaks.Proofs.NumberRanking
import Peaks.Proofs.Columns
import Peaks.Proofs.Checking
import Peaks.Proofs.ArrayLoad
import Peaks.Proofs.SideBySide
import Peaks.Proofs.Landings
import Peaks.Proofs.OneByOne
import Peaks.Proofs.Reentry
import Peaks.Proofs.Idle
import Peaks.Proofs.Overtaking
import Peaks.Proofs.Aftermath
import Peaks.Proofs.LoadedCells
import Peaks.Proofs.Interning
import Peaks.Proofs.SharedCells
import Peaks.Proofs.OpenStaging
import Peaks.Proofs.Removals
import Peaks.Proofs.PeakMask
import Peaks.Proofs.Locality
import Peaks.Proofs.Commuting
import Peaks.Proofs.Budget
import Peaks.Proofs.VersionBumps
import Peaks.Proofs.InsertionOrder
import Peaks.Proofs.PoolCalls
import Peaks.Proofs.LawfulOrders
