import CacheBench.Benchmark
import CacheBench.Cache
import CacheBench.Cache.Scripted
import CacheBench.Cluster.Event
import CacheBench.Cluster.Registry
import CacheBench.CommandLine
import CacheBench.CommandLine.Console
import CacheBench.Config
import CacheBench.Crew
import CacheBench.Crew.FanOut
import CacheBench.Error
import CacheBench.Files
import CacheBench.Gate
import CacheBench.Generator
import CacheBench.Json.Number
import CacheBench.Json.Shape
import CacheBench.Json.Text
import CacheBench.Json.Tree
import CacheBench.Main
import CacheBench.Measurement
import CacheBench.Net.Address
import CacheBench.Net.Isolation
import CacheBench.Net.Port
import CacheBench.Node
import CacheBench.Node.Fleet
import CacheBench.Node.World
import CacheBench.Number.Binary64
import CacheBench.Number.Numeral
import CacheBench.Number.Shortest
import CacheBench.Number.Style
import CacheBench.Options
import CacheBench.Options.Duration
import CacheBench.Options.Spec
import CacheBench.Population
import CacheBench.Predicate
import CacheBench.Program
import CacheBench.Record
import CacheBench.Report
import CacheBench.Settings
import CacheBench.Store.Entries
import CacheBench.Store.Transaction
import CacheBench.Summary
import CacheBench.Text.Blank
import CacheBench.Text.Bytes
import CacheBench.Text.Printable
import CacheBench.Text.Quoted
import CacheBench.Text.Terminal
import CacheBench.Wire.Client
import CacheBench.Wire.Command
import CacheBench.Wire.Endpoint
import CacheBench.Wire.Frame
import CacheBench.Wire.Loopback
import CacheBench.Workload
import CacheBench.Workload.Operation
import CacheBench.Proofs.AppliedBatch
import CacheBench.Proofs.TransactionStep
import CacheBench.Proofs.CacheStep
import CacheBench.Proofs.Timeline
import CacheBench.Proofs.Locking
import CacheBench.Proofs.LockTable
import CacheBench.Proofs.LockRelease
import CacheBench.Proofs.Versions
import CacheBench.Proofs.ReadOnly
import CacheBench.Proofs.SalaryIndex
import CacheBench.Proofs.IndexAgreement
import CacheBench.Proofs.BulkPut
import CacheBench.Proofs.Calls
import CacheBench.Proofs.Conflicts
import CacheBench.Proofs.Serializability
import CacheBench.Proofs.MapRefinement
import CacheBench.Proofs.SalaryBuckets
import CacheBench.Proofs.RegistryStep
import CacheBench.Proofs.Coherence
import CacheBench.Proofs.CallEffect
import CacheBench.Proofs.Membership
import CacheBench.Proofs.Listeners
import CacheBench.Proofs.EventStream
import CacheBench.Proofs.GateRun
import CacheBench.Proofs.Starters
import CacheBench.Proofs.Convergence
import CacheBench.Proofs.TextBytes
import CacheBench.Proofs.FrameCodec
import CacheBench.Proofs.EndpointStep
import CacheBench.Proofs.Replies
import CacheBench.Proofs.CommandGrammar
import CacheBench.Proofs.Sessions
import CacheBench.Proofs.CommandCodec
import CacheBench.Proofs.RemoteCalls
import CacheBench.Proofs.NodeStart
import CacheBench.Proofs.FleetHandles
import CacheBench.Proofs.NodeErrors
import CacheBench.Proofs.SettingUp
import CacheBench.Proofs.Inventory
import CacheBench.Proofs.Admissions
import CacheBench.Proofs.CacheDefinitions
import CacheBench.Proofs.CallStages
import CacheBench.Proofs.ClusterSharing
import CacheBench.Proofs.ConnectionPool
import CacheBench.Proofs.NodeLifecycle
import CacheBench.Proofs.QueryData
import CacheBench.Proofs.TransactionProtocol
import CacheBench.Proofs.ValidatedWork
import CacheBench.Proofs.AbsentKeyWrites
import CacheBench.Proofs.ValueCodec
import CacheBench.Proofs.QueryAnswers
import CacheBench.Proofs.TransactionReads
import CacheBench.Proofs.CommandForms
import CacheBench.Proofs.NearestNumber
import CacheBench.Proofs.ShortestDecimals
import CacheBench.Proofs.NumberTexts
import CacheBench.Proofs.ScaledDigits
import CacheBench.Proofs.StoredSalaries
import CacheBench.Proofs.FanOutSteps
import CacheBench.Proofs.FailureReport
import CacheBench.Proofs.PopulationShares
import CacheBench.Proofs.PopulationRuns
import CacheBench.Proofs.PortSearch
import CacheBench.Proofs.AddressLiterals
import CacheBench.Proofs.ServerLists
import CacheBench.Proofs.IdIntervals
import CacheBench.Proofs.DistinctKeys
import CacheBench.Proofs.WorkerSeeds
