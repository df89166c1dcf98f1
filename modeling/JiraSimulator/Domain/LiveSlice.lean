import JiraSimulator.Domain.TeamRuntime

/-!
# Drafts of the ledgers and the live slice

The activity, ground truth and projection drafts that a slice appends, keyed by semantic keys.  Keys
and payloads keep the structure of the texts that the code builds from them; the identifier and the
digest of a draft are functions of its key and its payload.
-/

namespace JiraSimulator

inductive ProjectionOperation where
  | CREATE_PROJECT
  | CREATE_BOARD
  | CREATE_ISSUE
  | CREATE_SPRINT
  | SCOPE_SPRINT
  | START_SPRINT
  | COMPLETE_SPRINT
  | TRANSITION_ISSUE
  deriving DecidableEq, Repr

/-- The last part of a sprint boundary key. -/
inductive BoundarySuffix where
  | activity
  | groundTruth
  | operation (operation : ProjectionOperation)
  deriving DecidableEq, Repr

/-- The last part of a provisioning key. -/
inductive ProvisioningSuffix where
  | project
  | board
  | issue (item : Uuid)
  | sprintCreate (sprint : Uuid)
  | sprintScope (sprint : Uuid)
  | sprintStart (sprint : Uuid)
  deriving DecidableEq, Repr

inductive SemanticKey where
  | scrumTick (team run : Uuid) (version : ℕ) (item : Uuid) (ordinal : ℕ) (endsAt : ℤ)
  | risk (team run : Uuid) (version : ℕ) (rule : String) (entity : Uuid) (occurredAt : ℤ)
  | riskTransition (run work : Uuid) (status : String) (occurredAt : ℤ)
  | sprintBoundary (team run : Uuid) (ordinal : ℕ) (suffix : BoundarySuffix)
  | jiraProvisioning (team run : Uuid) (suffix : ProvisioningSuffix)
  | restartGap (team run : Uuid) (startsAt endsAt : ℤ)
  deriving DecidableEq, Repr

/-! ### Activity -/

inductive EventType where
  | ISSUE_UPDATED
  | LONG_STAY_DETECTED
  | REVIEW_REJECTED
  | RISK_EVALUATED
  | ISSUE_CANCELLED
  | EXTERNAL_DEPENDENCY_STARTED
  | MEMBER_BECAME_UNAVAILABLE
  | SPRINT_STARTED
  | SPRINT_ROLLED_OVER
  | DOWNTIME_SKIPPED
  deriving DecidableEq, Repr

inductive AggregateType where
  | ISSUE
  | RISK
  | SPRINT
  | RUNTIME
  deriving DecidableEq, Repr

/-- The payload of an activity event, by the sentence that summarises it. -/
inductive ActivityPayload where
  | moved (issueType : IssueType) (jiraName : String)
  | queued (issueType : IssueType) (activity : Option String)
  | progressed (issueType : IssueType) (statusKey : String)
  | risk (rule : String) (outcome : Bool) (cause : String)
  | sprint (sprint : Uuid)
  | downtime (startsAt endsAt : ℤ)
  deriving DecidableEq, Repr

structure ActivityEventDraft where
  semanticKey : SemanticKey
  occurredAt : ℤ
  payload : ActivityPayload
  eventType : EventType
  aggregateType : AggregateType
  aggregateId : Uuid
  aggregateVersion : ℕ
  deriving DecidableEq, Repr

/-! ### Ground truth -/

/-- Why labor waited. -/
inductive QueueReason where
  | NO_CAPABLE_MEMBER
  | UNAVAILABLE
  | DAILY_CAPACITY
  | WIP_LIMIT
  | CONTENTION
  deriving DecidableEq, Repr

/-- The text of a reason, which orders the causes of one visit. -/
def QueueReason.order : QueueReason → ℤ
  | .CONTENTION => 0
  | .DAILY_CAPACITY => 1
  | .NO_CAPABLE_MEMBER => 2
  | .UNAVAILABLE => 3
  | .WIP_LIMIT => 4

inductive CausalReason where
  | TRANSITIONED
  | DWELLING
  | PROGRESSED
  | queued (reason : QueueReason)
  deriving DecidableEq, Repr

structure TimingContext where
  activity : Option String
  dwellSampledHours : ℚ
  touchSampledHours : ℚ
  requiredWorkMicroseconds : ℤ
  dailyCapacityHours : Option ℚ
  maxConcurrentWip : Option ℕ
  availabilityFraction : Option ℚ
  effectiveDailyCapacityMicroseconds : Option ℤ
  deriving DecidableEq, Repr

structure IssueStateRecord where
  workItemId : Uuid
  reason : CausalReason
  memberId : Option Uuid
  status : String
  businessDeltaMicroseconds : ℤ
  queueDeltaMicroseconds : ℤ
  queueCauses : List (QueueReason × ℤ)
  pauseDeltaMicroseconds : ℤ
  touchDeltaMicroseconds : ℤ
  remainingBeforeMicroseconds : ℤ
  remainingAfterMicroseconds : ℤ
  timingContext : TimingContext
  deriving DecidableEq, Repr

/-- The payload of a projection intent, without its dependencies. -/
inductive ProjectionPayload where
  | createProject (name projectKey : String)
  | createBoard (projectKey projectName : String)
  | createIssue (issueId : Uuid) (issueType : IssueType) (projectKey : String) (number : ℕ)
  | createSprint (sprintId boardId : Uuid) (projectKey : String) (startAt endAt : ℤ)
  | scopeSprint (sprintId : Uuid) (issueIds : List Uuid)
  | startSprint (sprintId : Uuid)
  | completeSprint (sprintId : Uuid)
  | transitionIssue (issueId : Uuid) (status : String)
  deriving DecidableEq, Repr

structure RiskEvaluationRecord where
  rule : RiskRule
  algorithm : String
  profile : String
  profileVersion : ℤ
  factors : List (String × ℚ)
  probability : ℚ
  draw : Option ℚ
  outcome : Bool
  eligiblePeople : List Uuid
  waitDeltaMicroseconds : ℤ
  progressDeltaMicroseconds : ℤ
  cause : String
  jiraIntent : Option ProjectionPayload
  deriving DecidableEq, Repr

inductive GroundTruthPayload where
  | issueState (record : IssueStateRecord)
  | riskEvaluation (record : RiskEvaluationRecord)
  | sprintBoundary (boundary : ℤ) (previous current : Uuid) (carryoverPolicy : String)
  | downtime (startsAt endsAt : ℤ)
  deriving DecidableEq, Repr

structure GroundTruthRecordDraft where
  semanticKey : SemanticKey
  occurredAt : ℤ
  payload : GroundTruthPayload
  deriving DecidableEq, Repr

/-! ### Projection -/

/-- A pending Jira operation. -/
structure ProjectionIntentDraft where
  semanticKey : SemanticKey
  occurredAt : ℤ
  payload : ProjectionPayload
  dependsOn : List SemanticKey
  operationType : ProjectionOperation
  aggregateId : Uuid
  aggregateVersion : ℕ
  deriving DecidableEq, Repr

/-! ### The slice -/

structure RuntimeAdvance where
  state : String
  simulationTime : ℤ
  nextWakeAt : Option ℤ

/-- Drafts with one semantic key must have one content. -/
def validateDraftTuple {α : Type} [DecidableEq α] (key : α → SemanticKey) (items : List α)
    (label : String) : Result Unit :=
  require (items.Pairwise fun a b => key a = key b → a = b)
    ("duplicate semantic key has conflicting " ++ label ++ " content")

structure TickSliceCommit where
  commitId : Uuid
  teamId : Uuid
  runId : Uuid
  expectedRuntimeVersion : ℕ
  runtimeAfter : RuntimeAdvance
  activity : List ActivityEventDraft
  groundTruth : List GroundTruthRecordDraft
  projectionIntents : List ProjectionIntentDraft
  recordedAt : ℤ

def TickSliceCommit.validate (commit : TickSliceCommit) : Result Unit := do
  require (isNonEmptyText commit.runtimeAfter.state) "runtime state must be a non-empty string"
  validateDraftTuple (·.semanticKey) commit.activity "activity"
  validateDraftTuple (·.semanticKey) commit.groundTruth "ground truth"
  validateDraftTuple (·.semanticKey) commit.projectionIntents "projection intents"

end JiraSimulator
