import LiandanluNative.Lib.Proc
import LiandanluNative.Lib.Ends
import LiandanluNative.Json
import LiandanluNative.Lib.Table
import LiandanluNative.Lib.Lease
import LiandanluNative.Lib.WriteThrough
import LiandanluNative.Lib.Backlog
import LiandanluNative.Lib.Latest
import LiandanluNative.Lib.Replicas
import LiandanluNative.Lib.Versions
import LiandanluNative.Lib.Confined
import LiandanluNative.Lib.Utf8
import LiandanluNative.Lib.Yields
import LiandanluNative.Lib.SortedBy
import LiandanluNative.Lib.Bytes
import LiandanluNative.Lib.Reading
import LiandanluNative.Lib.Runs
import LiandanluNative.Lib.Copies
import LiandanluNative.Lib.Stamps
import LiandanluNative.Storage.TaskLeases
import LiandanluNative.Storage.ResourceLeases
import LiandanluNative.Storage.Outbox
import LiandanluNative.Storage.Memory
import LiandanluNative.Storage.Migration
import LiandanluNative.Memory
import LiandanluNative.MemoryStore
import LiandanluNative.MemoryRuns
import LiandanluNative.Supervisor
import LiandanluNative.SupervisorMoves
import LiandanluNative.Brain
import LiandanluNative.System
import LiandanluNative.Runtime.Resources
import LiandanluNative.Runtime.BrokerRuns
import LiandanluNative.Runtime.Tasks
import LiandanluNative.Runtime.Engine
import LiandanluNative.Runtime.StepMoves
import LiandanluNative.Runtime.CallMoves
import LiandanluNative.Runtime.Commits
import LiandanluNative.Runtime.OperationSteps
import LiandanluNative.Runtime.Encoding
import LiandanluNative.Runtime.Fates
import LiandanluNative.Runtime.Aside
import LiandanluNative.Runtime.Upkeep
import LiandanluNative.Runtime.Survives
import LiandanluNative.Runtime.WorldEnds
import LiandanluNative.Runtime.WorldUpkeep
import LiandanluNative.Runtime.Scheduler
import LiandanluNative.Runtime.Lasting
import LiandanluNative.Runtime.StepCalls
import LiandanluNative.Runtime.Manifest
import LiandanluNative.Runtime.Stirring
import LiandanluNative.Bridge.Messages
import LiandanluNative.Bridge.Frames
import LiandanluNative.Bridge.Client
import LiandanluNative.Bridge.Pieces
import LiandanluNative.Bridge.Links
import LiandanluNative.Safety.WriteAhead
import LiandanluNative.Safety.OnlyPrepared
import LiandanluNative.Safety.Mediation
import LiandanluNative.Safety.LeaseFencing
import LiandanluNative.Safety.TaskLeases
import LiandanluNative.Safety.ResourceLeases
import LiandanluNative.Safety.OutboxDelivery
import LiandanluNative.Safety.MemoryCommits
import LiandanluNative.Safety.CancelRequests
import LiandanluNative.Safety.ConsumerCursors
import LiandanluNative.Safety.LatestMemory
import LiandanluNative.Safety.MemoryMigration
import LiandanluNative.Safety.MemoryPartition
import LiandanluNative.Safety.TerminalTasks
import LiandanluNative.Safety.TaskBooks
import LiandanluNative.Safety.RecoverySettles
import LiandanluNative.Safety.IndependentRecovery
import LiandanluNative.Safety.VerifiedJustified
import LiandanluNative.Safety.StoreMirrors
import LiandanluNative.Safety.SharedStore
import LiandanluNative.Safety.WorkspaceRevisions
import LiandanluNative.Safety.WorldRelations
import LiandanluNative.Safety.RevisionCounts
import LiandanluNative.Safety.SchedulerClaims
import LiandanluNative.Safety.ClaimOrder
import LiandanluNative.Safety.FrameRoundTrip
import LiandanluNative.Safety.BridgeClient
import LiandanluNative.Safety.LateReplies
import LiandanluNative.Safety.PeerData
import LiandanluNative.Safety.StoppedServices
import LiandanluNative.Safety.ServiceGenerations
import LiandanluNative.Safety.BrokerAgreement
import LiandanluNative.Safety.BrokerCapacity
import LiandanluNative.Safety.GoalEvidence
import LiandanluNative.Safety.DurableMemory
import LiandanluNative.Safety.StrategySupport
import LiandanluNative.Safety.RunOnce
import LiandanluNative.Safety.PoisonEvents
import LiandanluNative.Safety.LearningGate
import LiandanluNative.Safety.WorldUpdates
import LiandanluNative.Safety.ResponseGrammar
import LiandanluNative.StrategyTally
import LiandanluNative.Safety.StrategyStates
import LiandanluNative.Safety.DistinctEvidence
import LiandanluNative.Safety.GrantedLeases
import LiandanluNative.Safety.LegacyOutbox
import LiandanluNative.Safety.PrepareAtomic
import LiandanluNative.Safety.ResourceRelease
import LiandanluNative.Safety.ControlledSteps
import LiandanluNative.Safety.OwnManifest
import LiandanluNative.Lib.Recency
import LiandanluNative.Lib.Leading
import LiandanluNative.Lib.Feed
import LiandanluNative.Safety.Referents
import LiandanluNative.Safety.LocatorSmuggling
import LiandanluNative.Safety.EventAcks
import LiandanluNative.Safety.WaitReasons
import LiandanluNative.Safety.MemoryReplays
import LiandanluNative.Lib.Journal
import LiandanluNative.Safety.PostedEvents
import LiandanluNative.Safety.TaskHistory
import LiandanluNative.Safety.OperationHistory
import LiandanluNative.Lib.Fencing
import LiandanluNative.Safety.FencedEffects
import LiandanluNative.Runtime.Control
import LiandanluNative.Safety.ControlIntents
import LiandanluNative.Lib.Unaware
import LiandanluNative.Runtime.Volatile
import LiandanluNative.Safety.RestartTransparency
import LiandanluNative.Safety.EffectBudgets
import LiandanluNative.Safety.HaltedTasks
import LiandanluNative.Safety.OutboxDrains
import LiandanluNative.Safety.SecondRecovery
import LiandanluNative.Safety.ServiceRecords
import LiandanluNative.Safety.MemoryProjection
import LiandanluNative.Bridge.Paths
import LiandanluNative.Safety.BridgeSockets
import LiandanluNative.Lib.Settling
import LiandanluNative.Storage.Schema
import LiandanluNative.Safety.SchemaUpgrade
import LiandanluNative.Lib.Ledger
import LiandanluNative.Safety.EventModes
