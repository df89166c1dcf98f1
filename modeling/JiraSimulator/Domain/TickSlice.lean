import JiraSimulator.Domain.ScrumTick

/-!
# The slice of one tick

The ledger drafts of the visits that a tick changed, and `calculateScrumTick`, which joins them with
the drafts of the risks and the merged write set into one command.
-/

namespace JiraSimulator

open Library

variable {p : Platform}

/-! ### Ledger drafts -/

structure LedgerItem (p : Platform) where
  state : LiveTeamState p
  endsAt : ℤ
  work : WorkItemState
  visit : StatusVisitState
  originalVisit : StatusVisitState
  queueCauses : List QueueCause
  semanticKey : SemanticKey
  summary : ActivityPayload

def ledgerKey (state : LiveTeamState p) (visit : StatusVisitState) (endsAt : ℤ) : SemanticKey :=
  .scrumTick state.aggregate.runtime.teamId state.aggregate.runtime.runId
    state.aggregate.runtime.version visit.workItemId visit.ordinal endsAt

/-- The status of a key, by the first status that has it. -/
def statusByKey (state : LiveTeamState p) (statusKey : String) : Result WorkflowStatus :=
  next (fun item => item.key = statusKey) state.aggregate.blueprint.workflow.statuses

def summaryOf (state : LiveTeamState p) (work : WorkItemState) (visit : StatusVisitState) :
    Result ActivityPayload :=
  if work.currentStatusKey ≠ visit.statusKey then do
    let status ← statusByKey state work.currentStatusKey
    return .moved work.issueType status.jiraName
  else if visit.memberId.isNone then .ok (.queued work.issueType visit.activityKey)
  else .ok (.progressed work.issueType visit.statusKey)

def activityDraft (item : LedgerItem p) : ActivityEventDraft where
  semanticKey := item.semanticKey
  occurredAt := item.endsAt
  payload := item.summary
  eventType := .ISSUE_UPDATED
  aggregateType := .ISSUE
  aggregateId := item.work.id
  aggregateVersion := item.state.aggregate.runtime.version + 1

def causalReason (item : LedgerItem p) : CausalReason :=
  let original := item.originalVisit
  if item.work.currentStatusKey ≠ item.visit.statusKey then .TRANSITIONED
  else if item.visit.remainingWorkMicroseconds = 0 then .DWELLING
  else if item.visit.creditedLaborMicroseconds - original.creditedLaborMicroseconds ≠ 0 then
    .PROGRESSED
  else
    match item.queueCauses with
    | cause :: _ => .queued cause.reason
    | [] => .DWELLING

/-- `_causal_segment`: the last working time before the end of the tick. -/
def causalSegment (item : LedgerItem p) : Result BusinessSegment := do
  let calendar ← item.state.calendar
  let instant := item.endsAt - 1
  let businessDate ← calendar.businessDate instant
  match ← calendar.workingInterval businessDate with
  -- outside the working days the last microsecond stands for the segment
  | none => return { businessDate, start := instant, finish := item.endsAt }
  | some working =>
    return { businessDate, start := max (cursor item.state) working.start, finish := item.endsAt }

/-- `visit.member_id or original.member_id`. -/
def causalMember (item : LedgerItem p) : Option Uuid :=
  item.visit.memberId.or item.originalVisit.memberId

def timingContext (item : LedgerItem p) : Result TimingContext := do
  let sample ← next (fun value => value.visitId = item.originalVisit.id)
    item.state.scrum.statusVisitSamples
  let context : TimingContext := {
    activity := item.originalVisit.activityKey
    dwellSampledHours := sample.dwellSampledHours
    touchSampledHours := sample.touchSampledHours
    requiredWorkMicroseconds := sample.requiredWorkMicroseconds
    dailyCapacityHours := none, maxConcurrentWip := none, availabilityFraction := none
    effectiveDailyCapacityMicroseconds := none }
  match causalMember item with
  | none => do
    -- the segment is looked for, and may fail, without a member
    let _ ← causalSegment item
    return context
  | some memberId => do
    let identity ← next (fun value => value.id = memberId) item.state.scrum.memberIdentities
    let member ← memberBlueprint item.state identity
    let segment ← causalSegment item
    let fraction ← effectiveFraction item.state identity segment
    let ceiling ← dailyCeiling item.state identity segment
    return { context with
      dailyCapacityHours := some member.dailyCapacityHours
      maxConcurrentWip := some member.maxConcurrentWip
      availabilityFraction := some fraction
      effectiveDailyCapacityMicroseconds := some ceiling }

def groundTruthDraft (item : LedgerItem p) : Result GroundTruthRecordDraft := do
  let original := item.originalVisit
  let calendar ← item.state.calendar
  let businessDelta ← calendar.businessElapsed (cursor item.state) item.endsAt
  let timing ← timingContext item
  return {
    semanticKey := item.semanticKey
    occurredAt := item.endsAt
    payload := .issueState {
      workItemId := item.work.id
      reason := causalReason item
      memberId := causalMember item
      status := item.work.currentStatusKey
      businessDeltaMicroseconds := businessDelta
      queueDeltaMicroseconds := item.visit.queueMicroseconds - original.queueMicroseconds
      queueCauses := item.queueCauses.map fun cause => (cause.reason, cause.deltaMicroseconds)
      pauseDeltaMicroseconds := item.visit.pauseMicroseconds - original.pauseMicroseconds
      touchDeltaMicroseconds :=
        item.visit.creditedLaborMicroseconds - original.creditedLaborMicroseconds
      remainingBeforeMicroseconds := original.remainingWorkMicroseconds
      remainingAfterMicroseconds := item.visit.remainingWorkMicroseconds
      timingContext := timing } }

def projectionDraft (item : LedgerItem p) : Result ProjectionIntentDraft := do
  let status ← statusByKey item.state item.work.currentStatusKey
  return {
    semanticKey := item.semanticKey
    occurredAt := item.endsAt
    payload := .transitionIssue item.work.id status.jiraName
    dependsOn := []
    operationType := .TRANSITION_ISSUE
    aggregateId := item.work.id
    aggregateVersion := item.state.aggregate.runtime.version + 1 }

/-- The drafts of one visit. -/
structure VisitDrafts where
  activity : List ActivityEventDraft := []
  groundTruth : List GroundTruthRecordDraft := []
  projection : List ProjectionIntentDraft := []

/-- One step of the loop of `_ledger_drafts`; an open visit after the first one is new and has no
drafts of its own. -/
def visitDrafts (state : LiveTeamState p) (endsAt : ℤ) (result : TickResult)
    (visit : StatusVisitState) : Result VisitDrafts := do
  if 0 < visit.ordinal ∧ visit.lifecycle = .OPEN then return {}
  else
    let before ← getItem (·.id) state.scrum.workItems visit.workItemId
    let change := Keyed.lookup (·.id) result.workItems visit.workItemId
    let work := change.getD before
    let originalVisit ← getItem (·.id) state.scrum.statusVisits visit.id
    let summary ← summaryOf state work visit
    let item : LedgerItem p := {
      state, endsAt, work, visit, originalVisit, summary
      queueCauses := result.queueCauses.filter fun cause => cause.visitId = visit.id
      semanticKey := ledgerKey state visit endsAt }
    let truth ← groundTruthDraft item
    -- only an item that changed is sent to Jira
    let projection ← if change.isSome then (do return [← projectionDraft item]) else pure []
    return { activity := [activityDraft item], groundTruth := [truth], projection }

def ledgerDrafts (state : LiveTeamState p) (endsAt : ℤ) (result : TickResult) :
    Result VisitDrafts := do
  let drafts ← result.visits.mapM (visitDrafts state endsAt result)
  return {
    activity := drafts.flatMap (·.activity)
    groundTruth := drafts.flatMap (·.groundTruth)
    projection := drafts.flatMap (·.projection) }

/-! ### Commands -/

/-- `_live_slice`. -/
def liveSlice (state : LiveTeamState p) (request : TickRequest) (effectiveEnd : ℤ)
    (result : TickResult) : Result TickSliceCommit := do
  let runtime := state.aggregate.runtime
  let drafts ← ledgerDrafts state effectiveEnd result
  validated TickSliceCommit.validate {
    commitId := .scrumTick runtime.teamId runtime.runId runtime.version effectiveEnd
    teamId := runtime.teamId
    runId := runtime.runId
    expectedRuntimeVersion := runtime.version
    runtimeAfter := {
      state := runtime.state, simulationTime := effectiveEnd, nextWakeAt := some effectiveEnd }
    activity := drafts.activity
    groundTruth := drafts.groundTruth
    projectionIntents := drafts.projection
    recordedAt := request.recordedAt }

/-- `_with_risk_ledgers`. -/
def withRiskLedgers (slice : TickSliceCommit) (risks : RiskRecords p) : Result TickSliceCommit :=
  validated TickSliceCommit.validate { slice with
    activity := slice.activity ++ risks.activity
    groundTruth := slice.groundTruth ++ risks.groundTruth
    projectionIntents := slice.projectionIntents ++ risks.projectionIntents }

/-- The write set of the progress of a tick. -/
def progressWriteSet (result : TickResult) : Result (ScrumStateWriteSet p) :=
  ScrumStateWriteSet.create {
    memberBusinessDateConsumption := result.consumption
    workItems := result.workItems
    statusVisits := result.visits
    statusVisitSamples := result.samples }

/-- The part of `_finalize_tick` after the live slice: the write sets and the command. -/
def assembleTick (slice : TickSliceCommit) (advance : RiskAdvance p) :
    Result (AuthoritativeTickSliceCommit p) := do
  let progress ← progressWriteSet advance.result
  let writeSet ← mergeWriteSets advance.risks.state progress
  AuthoritativeTickSliceCommit.create slice writeSet
    (advance.risks.counterClaims ++ advance.result.claims) advance.risks.naturalDecisionClaims

/-- The live slice of a tick with the ledgers of its risks. -/
def tickSlice (request : TickRequest) (advance : RiskAdvance p) : Result TickSliceCommit := do
  let slice ← liveSlice advance.state request advance.result.endsAt advance.result
  withRiskLedgers slice advance.risks

/-- `_finalize_tick`. -/
def finalizeTick (request : TickRequest) (advance : RiskAdvance p) :
    Result (AuthoritativeTickSliceCommit p) := do
  let slice ← tickSlice request advance
  assembleTick slice advance

/-- `_lifecycle_commit`. -/
def lifecycleCommit (state : LiveTeamState p) (request : TickRequest)
    (transition : SprintTransition p) : Result (AuthoritativeTickSliceCommit p) := do
  let runtime := state.aggregate.runtime
  let boundary := runtime.simulationTime
  let slice ← validated TickSliceCommit.validate {
    commitId := .sprintLifecycle runtime.teamId runtime.runId runtime.version boundary
    teamId := runtime.teamId
    runId := runtime.runId
    expectedRuntimeVersion := runtime.version
    runtimeAfter := {
      state := runtime.state, simulationTime := boundary, nextWakeAt := some boundary }
    activity := transition.activity
    groundTruth := transition.groundTruth
    projectionIntents := transition.projectionIntents
    recordedAt := request.recordedAt }
  AuthoritativeTickSliceCommit.create slice transition.state transition.counterClaims
    transition.naturalDecisionClaims

/-- The advance of a tick that crosses no sprint boundary. -/
def tickAdvance (state : LiveTeamState p) (request : TickRequest) (draws : DrawSource) :
    Result (RiskAdvance p) := do
  let calendar ← state.calendar
  let effectiveEnd ← effectiveEnd state request.endsAt
  riskAwareAdvance state calendar draws effectiveEnd

/-- `calculate_scrum_tick`. -/
def calculateScrumTick (state : LiveTeamState p) (request : TickRequest) (draws : DrawSource) :
    Result (AuthoritativeTickSliceCommit p) := do
  validateRequest state request
  let transition ← crossSprintBoundary state (cursor state)
  -- a boundary at the cursor takes the whole tick
  if transition.activity ≠ [] then lifecycleCommit state request transition
  else
    let advance ← tickAdvance state request draws
    finalizeTick request advance

end JiraSimulator
