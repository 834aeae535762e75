import AgentOrchestrator.Library.Runs
import AgentOrchestrator.Library.Keyed
import AgentOrchestrator.Json
import AgentOrchestrator.Store.Types
import AgentOrchestrator.Store.Schema
import AgentOrchestrator.Store.Audit
import AgentOrchestrator.Store.Workers
import AgentOrchestrator.Store.Operations
import AgentOrchestrator.Store.Machine
import AgentOrchestrator.Store.WorkerOrder
import AgentOrchestrator.Store.Changes
import AgentOrchestrator.Store.Sessions
import AgentOrchestrator.Store.LaunchStatus
import AgentOrchestrator.Launch.Dispatch
import AgentOrchestrator.Launch.Invariant
import AgentOrchestrator.Launch.FailedLaunch
import AgentOrchestrator.Launch.FinishedSession
import AgentOrchestrator.Store.SessionEnd
import AgentOrchestrator.Launch.InDoubt
import AgentOrchestrator.Lease.Schema
import AgentOrchestrator.Lease.Storage
import AgentOrchestrator.Lease.Migrations
import AgentOrchestrator.Lease.Machine
import AgentOrchestrator.Lease.Effects
import AgentOrchestrator.Lease.Generations
import AgentOrchestrator.Lease.Fencing
import AgentOrchestrator.Lease.Safety
import AgentOrchestrator.Lease.Evidence
import AgentOrchestrator.Scheduler.Model
import AgentOrchestrator.Scheduler.Limits
import AgentOrchestrator.Adapter.Limited
import AgentOrchestrator.Adapter.Ownership
import AgentOrchestrator.Adapter.Leaks
import AgentOrchestrator.Adapter.EarlyRelease
import AgentOrchestrator.Calls.Schema
import AgentOrchestrator.Calls.Validator
import AgentOrchestrator.Calls.Cycles
import AgentOrchestrator.Calls.Executor
import AgentOrchestrator.Calls.Order
import AgentOrchestrator.Calls.Soundness
import AgentOrchestrator.Launch.Evidence
import AgentOrchestrator.Coordinator.Model
import AgentOrchestrator.Coordinator.Binding
import AgentOrchestrator.Coordinator.Reconcile
import AgentOrchestrator.Superset.Model
import AgentOrchestrator.Superset.OneAgent
import AgentOrchestrator.Superset.Lookup
import AgentOrchestrator.Store.StopReasons
import AgentOrchestrator.Store.Results
import AgentOrchestrator.Store.Chain
import AgentOrchestrator.Store.Deliveries
import AgentOrchestrator.Store.Memory
import AgentOrchestrator.Store.BatchKeys
import AgentOrchestrator.Library.Base64
import AgentOrchestrator.Library.Regex
import AgentOrchestrator.Security.Redaction
import AgentOrchestrator.Launch.Acceptance
import AgentOrchestrator.Store.Batches
import AgentOrchestrator.Launch.BatchReplay
import AgentOrchestrator.Launch.ClientScope
import AgentOrchestrator.JsonText
import AgentOrchestrator.Store.Cursors
import AgentOrchestrator.Store.Membership
import AgentOrchestrator.Store.Pages
import AgentOrchestrator.Launch.Paging
import AgentOrchestrator.Lifecycle.Model
import AgentOrchestrator.Lifecycle.Steps
import AgentOrchestrator.Lifecycle.Invariant
import AgentOrchestrator.Lifecycle.StopIntent
import AgentOrchestrator.Lifecycle.Claims
import AgentOrchestrator.Lifecycle.OneStop
import AgentOrchestrator.Lifecycle.Deadlines
import AgentOrchestrator.Lifecycle.Withdrawal
import AgentOrchestrator.JsonPrint
import AgentOrchestrator.Store.ChainHead
import AgentOrchestrator.Library.CodePoints
import AgentOrchestrator.Ir.Graph
import AgentOrchestrator.Ir.Order
import AgentOrchestrator.Ir.TypeSoundness
import AgentOrchestrator.Scheduler.Fairness
import AgentOrchestrator.Scheduler.Signals
import AgentOrchestrator.Scheduler.Wakeups
import AgentOrchestrator.Adapter.Idle
import AgentOrchestrator.Adapter.Relaunch
import AgentOrchestrator.Lifecycle.ProviderSlots
import AgentOrchestrator.Load.Runner
import AgentOrchestrator.Load.Verifier
import AgentOrchestrator.Load.Agreement
import AgentOrchestrator.JsonRoundTrip
import AgentOrchestrator.Library.Utf8Lines
import AgentOrchestrator.Registry.Schema
import AgentOrchestrator.Registry.Atomicity
import AgentOrchestrator.Registry.Diff
import AgentOrchestrator.Registry.Reconstruct
import AgentOrchestrator.Registry.DiffExact
import AgentOrchestrator.Lease.EventLog
import AgentOrchestrator.Calls.Canonical
import AgentOrchestrator.Calls.Recorder
import AgentOrchestrator.Calls.AuditTrail
import AgentOrchestrator.Library.IsoTime
import AgentOrchestrator.Library.JsonPointer
import AgentOrchestrator.Library.Layers
import AgentOrchestrator.Library.MaximalRuns
import AgentOrchestrator.Monitor.State
import AgentOrchestrator.Monitor.Incidents
import AgentOrchestrator.Library.RegexMatch
import AgentOrchestrator.Library.Surrogates
import AgentOrchestrator.Security.AuditField
import AgentOrchestrator.Security.SafeField
import AgentOrchestrator.Library.Marks
import AgentOrchestrator.Security.Canaries
import AgentOrchestrator.Store.AuditFields
import AgentOrchestrator.Library.Blocks
import AgentOrchestrator.Library.Entries
import AgentOrchestrator.Ir.Json
import AgentOrchestrator.Ir.JsonRoundTrip
import AgentOrchestrator.Ir.GraphJson
import AgentOrchestrator.Ir.GraphRoundTrip
import AgentOrchestrator.Calls.Replay
import AgentOrchestrator.Canonical.Form
import AgentOrchestrator.Canonical.Encoder
import AgentOrchestrator.Canonical.RequestHash
import AgentOrchestrator.Library.PromiseQueue
import AgentOrchestrator.Store.Serial
import AgentOrchestrator.Superset.MutationTail
import AgentOrchestrator.Library.LineReader
import AgentOrchestrator.Superset.Transport
import AgentOrchestrator.Superset.Bridge
import AgentOrchestrator.Launch.Loop
import AgentOrchestrator.Store.Progress
import AgentOrchestrator.Lifecycle.Wait
import AgentOrchestrator.Lifecycle.MapConcurrent
import AgentOrchestrator.Monitor.Slos
import AgentOrchestrator.Security.RedactValue
import AgentOrchestrator.Security.ValueCanaries
import AgentOrchestrator.Library.PosixPath
import AgentOrchestrator.Security.Workspace
import AgentOrchestrator.Launch.Workspaces
import AgentOrchestrator.Results.Protocol
import AgentOrchestrator.Results.Capture
import AgentOrchestrator.Results.Claims
import AgentOrchestrator.Library.ChildProcess
import AgentOrchestrator.Superset.Process
import AgentOrchestrator.Calls.Sandbox
import AgentOrchestrator.Discovery.Parser
import AgentOrchestrator.Discovery.Process
import AgentOrchestrator.Discovery.Discover
