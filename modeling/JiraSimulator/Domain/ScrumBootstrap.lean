import JiraSimulator.Domain.TeamRuntime

/-!
# The first Scrum state of a team run

The members, the ranked backlog, the sprint that contains the start, and the activation of the work
selected for it.  `activateSelectedWork` and `selectedScopeIds` are also used when a later sprint is
activated.
-/

namespace JiraSimulator

open Library

variable {p : Platform}

/-- `draws.draw(DecisionOccurrence(entity, kind, 0)).unit_value`. -/
def drawUnit (draws : DrawSource) (entity : Uuid) (kind : DecisionType) : ℚ :=
  (draws (.first entity kind)).unitValue

/-! ### Members and backlog -/

def memberIdentities (aggregate : PersistedTeamAggregate) : Result (List MemberIdentity) :=
  (List.range aggregate.blueprint.members.length).mapM fun index => do
    let id ← memberRngId aggregate.team.id index
    validated MemberIdentity.validate { id, teamId := aggregate.team.id, blueprintIndex := index }

/-- The first key whose cumulative weight exceeds the threshold, or else the last key. -/
def pickWeighted {α : Type} (threshold cumulative : ℚ) (last : α) : List (α × ℚ) → α
  | [] => last
  | (key, value) :: pairs =>
    let cumulative := fadd cumulative value
    if threshold < cumulative then key else pickWeighted threshold cumulative key pairs

def weightedValue {α : Type} (p : Platform) (pairs : List (α × ℚ)) (unitValue : ℚ) : Result α :=
  match pairs with
  | [] => .error .indexError
  | (key, value) :: rest =>
    let threshold := fmul unitValue (p.floatSum (pairs.map (·.2)))
    .ok (pickWeighted threshold 0 key ((key, value) :: rest))

/-- `_route_for`: the first route of an issue type. -/
def routeForIssueType (blueprint : ResolvedTeamBlueprint) (issueType : IssueType) :
    Result WorkflowRoute :=
  next (fun route => route.issueType = issueType) blueprint.workflow.routes

def backlogItem (p : Platform) (aggregate : PersistedTeamAggregate) (startedAt : ℤ)
    (draws : DrawSource) (sequence : ℕ) : Result WorkItemState := do
  let blueprint := aggregate.blueprint
  let id ← itemRngId aggregate.team.id .INITIAL_BACKLOG sequence
  let issueType ← weightedValue p blueprint.backlog.issueTypeWeights
    (drawUnit draws id .BACKLOG_ISSUE_TYPE)
  let storyPoints ← weightedValue p blueprint.backlog.storyPointWeights
    (drawUnit draws id .BACKLOG_STORY_POINTS)
  let priorityText ← weightedValue p blueprint.backlog.priorityWeights
    (drawUnit draws id .BACKLOG_PRIORITY)
  let priority ← WorkPriority.ofText priorityText
  let route ← routeForIssueType blueprint issueType
  let initialStep ← getIndex route.steps 0
  validated WorkItemState.validate {
    id
    teamId := aggregate.team.id
    runId := aggregate.runtime.runId
    creationKind := .INITIAL_BACKLOG
    creationSequence := sequence
    issueType, storyPoints, priority
    relativeRank := sequence
    lifecycle := .BACKLOG
    currentStatusKey := initialStep.statusKey
    createdAt := startedAt
    updatedAt := startedAt }

def rankedBacklog (p : Platform) (aggregate : PersistedTeamAggregate) (startedAt : ℤ)
    (draws : DrawSource) : Result (List WorkItemState) :=
  (List.range aggregate.blueprint.backlog.targetDepth).mapM
    (backlogItem p aggregate startedAt draws)

/-! ### The initial sprint -/

/-- The loop of `_containing_sprint_ordinal`: the boundaries are days apart and leave the supported
dates after `fuel` steps, where `cadenceBoundary` fails. -/
def advanceSprintOrdinal (calendar : BusinessCalendar) (cadence : CadenceRule) (startedAt : ℤ) :
    ℕ → ℕ → Result ℕ
  | 0, _ => .error datetimeRangeError
  | fuel + 1, ordinal => do
    let boundary ← cadenceBoundary calendar cadence (ordinal + 1)
    if boundary ≤ startedAt then
      advanceSprintOrdinal calendar cadence startedAt fuel (ordinal + 1)
    else
      return ordinal

/-- The number of supported dates. -/
def supportedDates : ℕ := 3652059

def containingSprintOrdinal (calendar : BusinessCalendar) (cadence : CadenceRule)
    (startedAt : ℤ) : Result ℕ :=
  if startedAt < cadence.anchor then .ok 0
  else advanceSprintOrdinal calendar cadence startedAt (supportedDates + 1) 0

def initialSprint (p : Platform) (aggregate : PersistedTeamAggregate) (startedAt : ℤ) :
    Result SprintState := do
  let blueprint := aggregate.blueprint
  let calendar ← BusinessCalendar.fromBlueprint p blueprint.team.timezone blueprint.calendar
  let cadence ← CadenceRule.create blueprint.scrum.firstBoundary blueprint.scrum.cadenceDays
  let ordinal ← containingSprintOrdinal calendar cadence startedAt
  let plannedStart ← cadenceBoundary calendar cadence ordinal
  let plannedEnd ← cadenceBoundary calendar cadence (ordinal + 1)
  let active : Bool := plannedStart ≤ startedAt
  let id ← sprintRngId aggregate.team.id ordinal
  validated SprintState.validate {
    id
    teamId := aggregate.team.id
    runId := aggregate.runtime.runId
    ordinal
    lifecycle := if active then .ACTIVE else .PLANNED
    plannedStartAt := plannedStart
    plannedEndAt := plannedEnd
    observedStartAt := if active then some startedAt else none
    observedEndAt := none
    createdAt := startedAt
    updatedAt := startedAt }

/-! ### Selection -/

/-- The capacity target of a sprint, in points. -/
def capacityTarget (scrum : ScrumBlueprint) (draws : DrawSource) (sprintId : Uuid) : ℤ :=
  let unitValue := drawUnit draws sprintId .SCRUM_CAPACITY_TARGET
  let range : ℤ := scrum.capacityMaxPoints - scrum.capacityMinPoints + 1
  scrum.capacityMinPoints + pyInt (fmul unitValue (floatOfInt range))

/-- The ranked items taken until the minimum is reached and the next would exceed the target. -/
def takeWithinCapacity (minPoints : ℕ) (target : ℤ) : ℕ → List WorkItemState → List Uuid
  | _, [] => []
  | used, item :: items =>
    let nextPoints := used + item.storyPoints
    if minPoints ≤ used ∧ target < nextPoints then []
    else item.id :: takeWithinCapacity minPoints target nextPoints items

def selectedScopeIds (p : Platform) (aggregate : PersistedTeamAggregate) (sprintId : Uuid)
    (workItems : List WorkItemState) (draws : DrawSource) : List Uuid :=
  let scrum := aggregate.blueprint.scrum
  takeWithinCapacity scrum.capacityMinPoints (capacityTarget scrum draws sprintId) 0
    (Ordering.sortOn (simulatorRank p) workItems)

/-! ### Activation -/

def isTimedStep (blueprint : ResolvedTeamBlueprint) (step : WorkflowRouteStep) : Result Bool := do
  let status ← next (fun status => status.key = step.statusKey) blueprint.workflow.statuses
  return status.consumesCapacity && step.requiredActivity.isSome

/-- `next((step for step in steps if _is_timed_step(blueprint, step)), None)`. -/
def firstTimedStep (blueprint : ResolvedTeamBlueprint) :
    List WorkflowRouteStep → Result (Option WorkflowRouteStep)
  | [] => .ok none
  | step :: steps => do
    if ← isTimedStep blueprint step then return some step else firstTimedStep blueprint steps

def activeItem (item : WorkItemState) (statusKey : String) (lifecycle : WorkItemLifecycle)
    (startedAt : ℤ) : Result WorkItemState :=
  validated WorkItemState.validate
    { item with lifecycle, currentStatusKey := statusKey, updatedAt := startedAt }

/-- The first timing cell of a status, an issue type and a point value. -/
def timingCell (blueprint : ResolvedTeamBlueprint) (item : WorkItemState) (statusKey : String) :
    Result TimingEntry :=
  next (fun entry => entry.cell = (statusKey, item.issueType, item.storyPoints))
    blueprint.timing.entries

def sampledMicroseconds (blueprint : ResolvedTeamBlueprint) (item : WorkItemState)
    (statusKey : String) (unitValue : ℚ) : Result ℤ := do
  let entry ← timingCell blueprint item statusKey
  let bounds ← touchBounds entry
  let hours ← sampleTouch bounds unitValue
  return Rounding.roundHalfEven (hours * microsecondsPerHour)

/-- Is the activity among the responsibilities of the member? -/
def MemberBlueprint.carries (member : MemberBlueprint) (activity : String) : Bool :=
  member.responsibilities.any fun responsibility => responsibility.activity = activity

def memberForActivity (blueprint : ResolvedTeamBlueprint) (activity : String) :
    List MemberIdentity → Result Uuid
  | [] => .error (.valueError "timed route activity must have a persisted member")
  | identity :: members => do
    let member ← getIndex blueprint.members identity.blueprintIndex
    if member.carries activity then return identity.id
    else memberForActivity blueprint activity members

/-- `_member_for_activity`, for the activity of a timed step. -/
def memberForStep (blueprint : ResolvedTeamBlueprint) (members : List MemberIdentity)
    (step : WorkflowRouteStep) : Result Uuid :=
  match step.requiredActivity with
  | none => .error (.valueError "timed route steps must require an activity")
  | some activity => memberForActivity blueprint activity members

/-- A visit that a work item has just entered, with all its work remaining. -/
def enteredVisit (id : Uuid) (work : WorkItemState) (ordinal : ℕ) (step : WorkflowRouteStep)
    (memberId : Option Uuid) (enteredAt required : ℤ) : StatusVisitState where
  id := id
  teamId := work.teamId
  runId := work.runId
  workItemId := work.id
  ordinal := ordinal
  lifecycle := .OPEN
  statusKey := step.statusKey
  activityKey := step.requiredActivity
  memberId := memberId
  enteredAt := enteredAt
  closedAt := none
  requiredWorkMicroseconds := required
  elapsedWorkMicroseconds := 0
  remainingWorkMicroseconds := required
  queueMicroseconds := 0
  pauseMicroseconds := 0
  creditedLaborMicroseconds := 0

def timedVisit (blueprint : ResolvedTeamBlueprint) (startedAt : ℤ) (members : List MemberIdentity)
    (item : WorkItemState) (step : WorkflowRouteStep) (draws : DrawSource) :
    Result StatusVisitState := do
  let id ← visitRngId item.id 0
  let required ← sampledMicroseconds blueprint item step.statusKey (drawUnit draws id .STATUS_TOUCH)
  let memberId ← memberForStep blueprint members step
  validated StatusVisitState.validate
    (enteredVisit id item 0 step (some memberId) startedAt required)

def statusSample (p : Platform) (blueprint : ResolvedTeamBlueprint) (item : WorkItemState)
    (visit : StatusVisitState) (draws : DrawSource) : Result StatusVisitSample := do
  let input : StatusVisitSampleInput := {
    blueprint, workItem := item, visit
    dwellDraw := draws (.first visit.id .STATUS_DWELL)
    touchDraw := draws (.first visit.id .STATUS_TOUCH) }
  input.validate p
  StatusVisitSample.create p input

/-- The rows written for one activated item. -/
structure ActivatedItem where
  item : WorkItemState
  visits : List StatusVisitState
  samples : List StatusVisitSample

def activateItem (p : Platform) (blueprint : ResolvedTeamBlueprint) (startedAt : ℤ)
    (members : List MemberIdentity) (draws : DrawSource) (item : WorkItemState) :
    Result ActivatedItem := do
  let route ← routeForIssueType blueprint item.issueType
  match ← firstTimedStep blueprint route.steps with
  | none =>
    let terminal ← getIndex route.steps (route.steps.length - 1)
    let done ← activeItem item terminal.statusKey .DONE startedAt
    return { item := done, visits := [], samples := [] }
  | some step =>
    let active ← activeItem item step.statusKey .ACTIVE startedAt
    let visit ← timedVisit blueprint startedAt members active step draws
    let sample ← statusSample p blueprint active visit draws
    return { item := active, visits := [visit], samples := [sample] }

/-- `_activate_selected_work`: every item in order, the selected ones activated. -/
def activateSelectedWork (p : Platform) (aggregate : PersistedTeamAggregate) (startedAt : ℤ)
    (members : List MemberIdentity) (workItems : List WorkItemState) (selectedIds : List Uuid)
    (draws : DrawSource) : Result (List ActivatedItem) :=
  workItems.mapM fun item =>
    if item.id ∈ selectedIds then
      activateItem p aggregate.blueprint startedAt members draws item
    else
      .ok { item, visits := [], samples := [] }

/-! ### Scope and counters -/

def scopeEntry (teamId runId sprintId : Uuid) (addedAt : ℤ) (item : Uuid) :
    Result SprintScopeEntry :=
  validated SprintScopeEntry.validate
    { id := .sprintScope sprintId item, teamId, runId, sprintId, workItemId := item, addedAt,
      removedAt := none }

/-- `_scope_entries` of the bootstrap, in the order of the identifiers. -/
def scopeEntries (p : Platform) (aggregate : PersistedTeamAggregate) (sprintId : Uuid)
    (selectedIds : List Uuid) (startedAt : ℤ) : Result (List SprintScopeEntry) :=
  (Ordering.sortOn (fun item => [(p.uuidInt item : ℤ)]) selectedIds).mapM
    (scopeEntry aggregate.team.id aggregate.runtime.runId sprintId startedAt)

def counterRow (aggregate : PersistedTeamAggregate) (scope : SemanticCounterScope)
    (nextValue : ℕ) : Result SemanticCounter :=
  validated SemanticCounter.validate
    { teamId := aggregate.team.id, runId := aggregate.runtime.runId, scope, nextValue }

def sprintCounter (aggregate : PersistedTeamAggregate) (sprint : SprintState) :
    Result SemanticCounter :=
  counterRow aggregate (.sprintOrdinal aggregate.team.id) (sprint.ordinal + 1)

/-- `next_by_item.get(item, 0)`: one past the ordinal of the last visit of the item. -/
def nextVisitOrdinal (visits : List StatusVisitState) (item : Uuid) : ℕ :=
  match visits.reverse.find? (fun visit => visit.workItemId = item) with
  | some visit => visit.ordinal + 1
  | none => 0

def visitCounters (aggregate : PersistedTeamAggregate) (workItems : List WorkItemState)
    (visits : List StatusVisitState) : Result (List SemanticCounter) :=
  workItems.mapM fun item =>
    counterRow aggregate (.visitOrdinal item.id) (nextVisitOrdinal visits item.id)

def naturalCounters (aggregate : PersistedTeamAggregate) (entities : List Uuid)
    (decision : DecisionType) : Result (List SemanticCounter) :=
  entities.mapM fun entity => counterRow aggregate (.naturalDecision entity decision) 0

def initialCounters (aggregate : PersistedTeamAggregate) (members : List MemberIdentity)
    (workItems : List WorkItemState) (visits : List StatusVisitState) :
    Result (List SemanticCounter) := do
  let visitRows ← visitCounters aggregate workItems visits
  let cancellations ← naturalCounters aggregate (workItems.map (·.id)) .RISK_CANCELLATION_OUTCOME
  let absences ← naturalCounters aggregate (members.map (·.id)) .RISK_MEMBER_UNAVAILABLE_OUTCOME
  return visitRows ++ cancellations ++ absences

/-! ### The initial state -/

structure BootstrapContext where
  aggregate : PersistedTeamAggregate
  startedAt : ℤ
  members : List MemberIdentity
  workItems : List WorkItemState
  sprint : SprintState

def bootstrapContext (p : Platform) (aggregate : PersistedTeamAggregate) (startedAt : ℤ)
    (draws : DrawSource) : Result BootstrapContext := do
  let members ← memberIdentities aggregate
  let workItems ← rankedBacklog p aggregate startedAt draws
  let sprint ← initialSprint p aggregate startedAt
  return { aggregate, startedAt, members, workItems, sprint }

def plannedInitialState (context : BootstrapContext) : Result (ScrumStateWriteSet p) := do
  let sprintRow ← sprintCounter context.aggregate context.sprint
  let counters ← initialCounters context.aggregate context.members context.workItems []
  ScrumStateWriteSet.create {
    memberIdentities := context.members
    workItems := context.workItems
    sprints := [context.sprint]
    semanticCounters := sprintRow :: counters }

def activeInitialState (context : BootstrapContext) (draws : DrawSource) :
    Result (ScrumStateWriteSet p) := do
  let selectedIds := selectedScopeIds p context.aggregate context.sprint.id context.workItems draws
  let activated ← activateSelectedWork p context.aggregate context.startedAt context.members
    context.workItems selectedIds draws
  let scope ← scopeEntries p context.aggregate context.sprint.id selectedIds context.startedAt
  let workItems := activated.map (·.item)
  let visits := activated.flatMap (·.visits)
  let sprintRow ← sprintCounter context.aggregate context.sprint
  let counters ← initialCounters context.aggregate context.members workItems visits
  ScrumStateWriteSet.create {
    memberIdentities := context.members
    workItems
    sprints := [context.sprint]
    sprintScope := scope
    statusVisits := visits
    statusVisitSamples := activated.flatMap (·.samples)
    semanticCounters := sprintRow :: counters }

/-- `build_initial_scrum_state`. -/
def buildInitialScrumState (aggregate : PersistedTeamAggregate) (startedAt : ℤ)
    (draws : DrawSource) : Result (ScrumStateWriteSet p) := do
  let context ← bootstrapContext p aggregate startedAt draws
  if context.sprint.lifecycle = .PLANNED then plannedInitialState context
  else activeInitialState context draws

end JiraSimulator
