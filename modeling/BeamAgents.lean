import BeamAgents.Transition.Machine
import BeamAgents.Transition.Minting
import BeamAgents.Protos
import BeamAgents.Core.Migration
import BeamAgents.Observability.Traces
import BeamAgents.Memory.Facade
import BeamAgents.Memory.Reference
import BeamAgents.Memory.Evictions
import BeamAgents.Memory.Reserved
import BeamAgents.Memory.Values
import BeamAgents.Memory.Summarize
import BeamAgents.Memory.Convergence
import BeamAgents.Core.DoFn
import BeamAgents.Core.Metering
import BeamAgents.Core.Overlay
import BeamAgents.Core.Retention
import BeamAgents.Core.MigrationChain
import BeamAgents.Core.Calls
import BeamAgents.Core.Identity
import BeamAgents.Core.Suspensions
import BeamAgents.Core.Atomicity
import BeamAgents.Core.Raising
import BeamAgents.Core.Conservation
import BeamAgents.Core.Escalations
import BeamAgents.Core.Admission
import BeamAgents.Core.Timers
import BeamAgents.Effector.Outcomes
import BeamAgents.Effector.Handled
import BeamAgents.Effector.Claims
import BeamAgents.Effector.Dispatcher
import BeamAgents.System.Sharding
import BeamAgents.System.Wiring
import BeamAgents.Core.Longterm
import BeamAgents.Core.TraceIdentity
import BeamAgents.Core.Retry
import BeamAgents.Effector.Conformance
import BeamAgents.Effector.Revocation
import BeamAgents.Effector.Gate
import BeamAgents.Core.BatchOfOne
import BeamAgents.Model.ReplayBytes
import BeamAgents.Model.ReplayRuns
import BeamAgents.Model.ReplayAccounting
import BeamAgents.Model.ReplayReference
import BeamAgents.Console.ErrorStore
import BeamAgents.Console.LostBatches
import BeamAgents.Core.SpanParents
import BeamAgents.Effector.Execution
import BeamAgents.Effector.Processing
import BeamAgents.Effector.Consumer
import BeamAgents.Core.ModelCalls
import BeamAgents.Core.HalfOpen
import BeamAgents.Core.TokenLatch
import BeamAgents.Wire.Utf8
import BeamAgents.Stores.Patterns
import BeamAgents.Protos.LongTerm
import BeamAgents.Memory.Search
import BeamAgents.Memory.SearchAgreement
import BeamAgents.System.Guards
import BeamAgents.Console.BigQuery
import BeamAgents.Console.LiveFeed
import BeamAgents.Console.Converging
import BeamAgents.Console.FailuresOnce
import BeamAgents.Console.Pages
import BeamAgents.Console.Timeouts
import BeamAgents.Console.Payloads
import BeamAgents.Adapters.Checkpoints
import BeamAgents.Console.SpanTree
import BeamAgents.Console.BundleImport
import BeamAgents.Observability.BatchExport
import BeamAgents.Replay.Bundle
import BeamAgents.Replay.Diff
import BeamAgents.Replay.Replayable
import BeamAgents.Replay.Record
import BeamAgents.Replay.Reproduced
import BeamAgents.Effector.Outbox
import BeamAgents.Effector.Ordering
import BeamAgents.Adapters.Surfacing
import BeamAgents.Adapters.AdkSessions
