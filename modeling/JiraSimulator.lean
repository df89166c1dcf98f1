import JiraSimulator.Application.Callers
import JiraSimulator.Application.DrainOnce
import JiraSimulator.Application.DuePages
import JiraSimulator.Application.JiraDelivery
import JiraSimulator.Application.JiraProvisioning
import JiraSimulator.Application.LiveScheduler
import JiraSimulator.Application.Restart
import JiraSimulator.Application.Runtime
import JiraSimulator.Correctness.Allocation
import JiraSimulator.Correctness.Blueprint
import JiraSimulator.Correctness.Bootstrap
import JiraSimulator.Correctness.BusinessAddition
import JiraSimulator.Correctness.BusinessMeasure
import JiraSimulator.Correctness.BusinessTime
import JiraSimulator.Correctness.CadenceBoundaries
import JiraSimulator.Correctness.Callers
import JiraSimulator.Correctness.Cancellation
import JiraSimulator.Correctness.CanonicalForm
import JiraSimulator.Correctness.CapacityLimits
import JiraSimulator.Correctness.Collections
import JiraSimulator.Correctness.CommitAttempts
import JiraSimulator.Correctness.CommitReplay
import JiraSimulator.Correctness.Commits
import JiraSimulator.Correctness.Counters
import JiraSimulator.Correctness.DatabaseChanges
import JiraSimulator.Correctness.Decisions
import JiraSimulator.Correctness.DeliveryIsolation
import JiraSimulator.Correctness.DeliveryQueue
import JiraSimulator.Correctness.DeliveryStore
import JiraSimulator.Correctness.DependencyWaits
import JiraSimulator.Correctness.DispatchGate
import JiraSimulator.Correctness.DowntimeEvidence
import JiraSimulator.Correctness.DrainComplete
import JiraSimulator.Correctness.DwellQuantile
import JiraSimulator.Correctness.Enterable
import JiraSimulator.Correctness.EntryTimes
import JiraSimulator.Correctness.EventAudits
import JiraSimulator.Correctness.EventDispatch
import JiraSimulator.Correctness.EventStreams
import JiraSimulator.Correctness.FlowColumns
import JiraSimulator.Correctness.HolidayHorizons
import JiraSimulator.Correctness.IntentOrder
import JiraSimulator.Correctness.IntentRedelivery
import JiraSimulator.Correctness.ItemMoves
import JiraSimulator.Correctness.ItemRuns
import JiraSimulator.Correctness.ItemTicks
import JiraSimulator.Correctness.LaborBalance
import JiraSimulator.Correctness.LedgerPaging
import JiraSimulator.Correctness.Lifecycle
import JiraSimulator.Correctness.LongWaits
import JiraSimulator.Correctness.MemberCredits
import JiraSimulator.Correctness.MovingSprint
import JiraSimulator.Correctness.NewVisits
import JiraSimulator.Correctness.OpenVisits
import JiraSimulator.Correctness.OutageTracking
import JiraSimulator.Correctness.OwnerChoice
import JiraSimulator.Correctness.PlannedSprint
import JiraSimulator.Correctness.PlanningOrder
import JiraSimulator.Correctness.PresencePauses
import JiraSimulator.Correctness.PriorRework
import JiraSimulator.Correctness.ProgressLedger
import JiraSimulator.Correctness.Provisioning
import JiraSimulator.Correctness.QueueCauses
import JiraSimulator.Correctness.RecomputedSchedule
import JiraSimulator.Correctness.RestartRuns
import JiraSimulator.Correctness.ReworkCounts
import JiraSimulator.Correctness.RiskActivity
import JiraSimulator.Correctness.RiskHandlers
import JiraSimulator.Correctness.RiskLedgers
import JiraSimulator.Correctness.RiskProbability
import JiraSimulator.Correctness.RiskRecords
import JiraSimulator.Correctness.RiskSteps
import JiraSimulator.Correctness.RiskWindow
import JiraSimulator.Correctness.Rollover
import JiraSimulator.Correctness.RouteProgress
import JiraSimulator.Correctness.Rows
import JiraSimulator.Correctness.Runs
import JiraSimulator.Correctness.SchedulerPass
import JiraSimulator.Correctness.ScopeCover
import JiraSimulator.Correctness.ScopeSelection
import JiraSimulator.Correctness.Scripts
import JiraSimulator.Correctness.SegmentClocks
import JiraSimulator.Correctness.SegmentCuts
import JiraSimulator.Correctness.SegmentRuns
import JiraSimulator.Correctness.Segments
import JiraSimulator.Correctness.SemanticIdentities
import JiraSimulator.Correctness.ServiceTime
import JiraSimulator.Correctness.SprintBoard
import JiraSimulator.Correctness.SprintPaging
import JiraSimulator.Correctness.SprintTimeline
import JiraSimulator.Correctness.SprintWindows
import JiraSimulator.Correctness.Steps
import JiraSimulator.Correctness.StickyOwners
import JiraSimulator.Correctness.StoredDrafts
import JiraSimulator.Correctness.TeamCreation
import JiraSimulator.Correctness.TickItems
import JiraSimulator.Correctness.TickRuns
import JiraSimulator.Correctness.TickSchedule
import JiraSimulator.Correctness.TickWindow
import JiraSimulator.Correctness.TimePartition
import JiraSimulator.Correctness.TouchConversion
import JiraSimulator.Correctness.TransitionTarget
import JiraSimulator.Correctness.ValidState
import JiraSimulator.Correctness.VisitClaims
import JiraSimulator.Correctness.VisitPauses
import JiraSimulator.Correctness.VisitRows
import JiraSimulator.Correctness.WaitAccounting
import JiraSimulator.Correctness.WorkInProgress
import JiraSimulator.Correctness.WorkdayDates
import JiraSimulator.Correctness.WorkingMoments
import JiraSimulator.Correctness.WriteBatches
import JiraSimulator.Correctness.WriteOrder
import JiraSimulator.Correctness.WriteQueue
import JiraSimulator.Correctness.WriteScripts
import JiraSimulator.Correctness.WriteSets
import JiraSimulator.Correctness.WriteSteps
import JiraSimulator.Domain.AuthoritativeSlice
import JiraSimulator.Domain.BusinessCalendar
import JiraSimulator.Domain.CanonicalJson
import JiraSimulator.Domain.DeterministicRng
import JiraSimulator.Domain.JiraDelivery
import JiraSimulator.Domain.JsonDocuments
import JiraSimulator.Domain.LiveSlice
import JiraSimulator.Domain.RecordIdentity
import JiraSimulator.Domain.RiskFormula
import JiraSimulator.Domain.Risks
import JiraSimulator.Domain.Sampling
import JiraSimulator.Domain.SamplingFormula
import JiraSimulator.Domain.ScrumBootstrap
import JiraSimulator.Domain.ScrumCollections
import JiraSimulator.Domain.ScrumState
import JiraSimulator.Domain.ScrumTick
import JiraSimulator.Domain.SemanticPaths
import JiraSimulator.Domain.SprintLifecycle
import JiraSimulator.Domain.TeamBlueprint
import JiraSimulator.Domain.TeamRuntime
import JiraSimulator.Domain.TickSlice
import JiraSimulator.Domain.UsFederalCalendar
import JiraSimulator.Domain.Value
import JiraSimulator.Engine.Calendar
import JiraSimulator.Engine.Capacity
import JiraSimulator.Engine.Database
import JiraSimulator.Engine.EventAuditor
import JiraSimulator.Engine.EventDispatcher
import JiraSimulator.Engine.FlowMatrix
import JiraSimulator.Engine.Precompute
import JiraSimulator.Engine.Service
import JiraSimulator.Engine.Simulation
import JiraSimulator.Engine.SprintRequests
import JiraSimulator.Engine.WorkflowEngine
import JiraSimulator.Integrations.JiraHealth
import JiraSimulator.Integrations.JiraIntentAdapter
import JiraSimulator.Integrations.JiraSprintPages
import JiraSimulator.Integrations.JiraWriteQueue
import JiraSimulator.Library.Binary64
import JiraSimulator.Library.DecimalText
import JiraSimulator.Library.DoubleRounding
import JiraSimulator.Library.Elapsed
import JiraSimulator.Library.GreedyPrefix
import JiraSimulator.Library.Gregorian
import JiraSimulator.Library.Intervals
import JiraSimulator.Library.JsonReader
import JiraSimulator.Library.JsonRoundTrip
import JiraSimulator.Library.JsonText
import JiraSimulator.Library.Keyed
import JiraSimulator.Library.Ordering
import JiraSimulator.Library.Outbox
import JiraSimulator.Library.Outcome
import JiraSimulator.Library.PageTraversal
import JiraSimulator.Library.Paging
import JiraSimulator.Library.PathText
import JiraSimulator.Library.Redelivery
import JiraSimulator.Library.Replay
import JiraSimulator.Library.Rounding
import JiraSimulator.Library.Session
import JiraSimulator.Library.Table
import JiraSimulator.Library.Transition
import JiraSimulator.Library.Walk
import JiraSimulator.Library.WorkQueue
import JiraSimulator.Persistence.CommitAttempts
import JiraSimulator.Persistence.JiraDeliveryStore
import JiraSimulator.Persistence.LedgerPages
import JiraSimulator.Persistence.LiveTeamStore
import JiraSimulator.Persistence.ScrumStateMapper
import JiraSimulator.Persistence.StoredPayloads
import JiraSimulator.Persistence.TeamRepository
import JiraSimulator.Persistence.UnitOfWork
