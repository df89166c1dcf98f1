import JiraSimulator.Domain.AuthoritativeSlice
import JiraSimulator.Domain.ScrumBootstrap

/-!
# Fixed-boundary sprint transitions

At the start of a planned sprint the sprint is activated; at the end of the active sprint it is
completed and its successor takes over the unfinished work and the next backlog items.
-/

namespace JiraSimulator

open Library

variable {p : Platform}

structure SprintTransition (p : Platform) where
  state : ScrumStateWriteSet p
  activity : List ActivityEventDraft
  groundTruth : List GroundTruthRecordDraft
  projectionIntents : List ProjectionIntentDraft
  counterClaims : List SemanticCounterClaim
  naturalDecisionClaims : List EligibleNaturalDecisionClaim

structure PlannedScope where
  workItems : List WorkItemState
  scope : List SprintScopeEntry
  visits : List StatusVisitState
  samples : List StatusVisitSample
  claims : List SemanticCounterClaim

structure TransitionContext (p : Platform) where
  state : LiveTeamState p
  writeSet : ScrumStateWriteSet p
  claims : List SemanticCounterClaim
  previous : SprintState
  current : SprintState
  boundary : ℤ

/-! ### Planning -/

/-- `_visit_claim`: the claim on the next visit of a work item. -/
def visitClaim (state : LiveTeamState p) (workItemId : Uuid) : Result SemanticCounterClaim := do
  let scope := SemanticCounterScope.visitOrdinal workItemId
  let counter ← next (fun counter => counter.scope = scope) state.scrum.semanticCounters
  SemanticCounterClaim.one scope counter.nextValue

/-- `_scope_entries` of a sprint, in the given order. -/
def sprintScopeEntries (state : LiveTeamState p) (sprintId : Uuid) (workItemIds : List Uuid)
    (boundary : ℤ) : Result (List SprintScopeEntry) :=
  workItemIds.mapM
    (scopeEntry state.aggregate.runtime.teamId state.aggregate.runtime.runId sprintId boundary)

def plannedScope (state : LiveTeamState p) (sprintId : Uuid) (selectedIds : List Uuid)
    (boundary : ℤ) (draws : DrawSource) : Result PlannedScope := do
  let activated ← activateSelectedWork p state.aggregate boundary state.scrum.memberIdentities
    state.scrum.workItems selectedIds draws
  let visits := activated.flatMap (·.visits)
  let scope ← sprintScopeEntries state sprintId selectedIds boundary
  let claims ← visits.mapM fun visit => visitClaim state visit.workItemId
  return {
    workItems := (activated.map (·.item)).filter fun item => item.id ∈ selectedIds
    scope, visits, claims
    samples := activated.flatMap (·.samples) }

def carryoverIds (state : LiveTeamState p) (sprintId : Uuid) : Result (List Uuid) := do
  let entries := state.scrum.sprintScope.filter fun entry =>
    entry.sprintId = sprintId && entry.removedAt.isNone
  let items ← entries.mapM fun entry => getItem (·.id) state.scrum.workItems entry.workItemId
  return (items.filter fun item => item.lifecycle = .ACTIVE).map (·.id)

/-- The ranked backlog items taken until the minimum is reached and the next would exceed the
target, on top of the points already used. -/
def takeBacklog (minPoints : ℕ) (target : ℤ) : ℕ → List WorkItemState → List Uuid
  | _, [] => []
  | used, item :: items =>
    if item.lifecycle ≠ .BACKLOG then takeBacklog minPoints target used items
    -- the first item that does not fit ends the selection
    else if minPoints ≤ used ∧ target < used + item.storyPoints then []
    else item.id :: takeBacklog minPoints target (used + item.storyPoints) items

def rankedBacklogIds (state : LiveTeamState p) (sprintId : Uuid) (carryIds : List Uuid)
    (draws : DrawSource) : Result (List Uuid) := do
  let carried ← carryIds.mapM (getItem (·.id) state.scrum.workItems)
  let scrum := state.aggregate.blueprint.scrum
  return takeBacklog scrum.capacityMinPoints (capacityTarget scrum draws sprintId)
    (carried.map (·.storyPoints)).sum
    (Ordering.sortOn (simulatorRank p) state.scrum.workItems)

/-! ### Drafts of a transition -/

def boundaryKey (state : LiveTeamState p) (ordinal : ℕ) (suffix : BoundarySuffix) : SemanticKey :=
  .sprintBoundary state.aggregate.runtime.teamId state.aggregate.runtime.runId ordinal suffix

def TransitionContext.activity (context : TransitionContext p) (eventType : EventType) :
    ActivityEventDraft where
  semanticKey := boundaryKey context.state context.current.ordinal .activity
  occurredAt := context.boundary
  payload := .sprint context.current.id
  eventType := eventType
  aggregateType := .SPRINT
  aggregateId := context.current.id
  aggregateVersion := context.state.aggregate.runtime.version + 1

def TransitionContext.groundTruth (context : TransitionContext p) : GroundTruthRecordDraft where
  semanticKey := boundaryKey context.state context.current.ordinal .groundTruth
  occurredAt := context.boundary
  payload := .sprintBoundary context.boundary context.previous.id context.current.id
    context.state.aggregate.blueprint.scrum.carryoverPolicyVersion

/-- The sprint that an operation of the boundary is about. -/
def TransitionContext.sprintOf (context : TransitionContext p)
    (operation : ProjectionOperation) : SprintState :=
  if operation = .COMPLETE_SPRINT then context.previous else context.current

/-- The items whose scope rows were added to a sprint and are still current. -/
def scopedIssueIds (scope : List SprintScopeEntry) (sprintId : Uuid) : List Uuid :=
  (scope.filter fun entry => entry.sprintId = sprintId && entry.removedAt.isNone).map
    (·.workItemId)

def projectionPayload (context : TransitionContext p) (operation : ProjectionOperation) :
    ProjectionPayload :=
  let sprint := context.sprintOf operation
  match operation with
  | .CREATE_SPRINT =>
    .createSprint sprint.id context.state.aggregate.team.id
      context.state.aggregate.blueprint.jira.projectKey sprint.plannedStartAt sprint.plannedEndAt
  | .SCOPE_SPRINT => .scopeSprint sprint.id (scopedIssueIds context.writeSet.sprintScope sprint.id)
  | .COMPLETE_SPRINT => .completeSprint sprint.id
  | _ => .startSprint sprint.id

def boundaryIntent (context : TransitionContext p) (dependency : List SemanticKey)
    (operation : ProjectionOperation) : ProjectionIntentDraft where
  semanticKey := boundaryKey context.state context.current.ordinal (.operation operation)
  occurredAt := context.boundary
  payload := projectionPayload context operation
  dependsOn := dependency
  operationType := operation
  aggregateId := (context.sprintOf operation).id
  aggregateVersion := context.state.aggregate.runtime.version + 1

/-- `_build_projection_intents`: each operation depends on the one before. -/
def buildProjectionIntents (context : TransitionContext p) :
    List SemanticKey → List ProjectionOperation → List ProjectionIntentDraft
  | _, [] => []
  | dependency, operation :: operations =>
    let intent := boundaryIntent context dependency operation
    intent :: buildProjectionIntents context [intent.semanticKey] operations

def activationTransition (context : TransitionContext p) : SprintTransition p where
  state := context.writeSet
  activity := [context.activity .SPRINT_STARTED]
  groundTruth := [context.groundTruth]
  projectionIntents :=
    buildProjectionIntents context [] [.CREATE_SPRINT, .SCOPE_SPRINT, .START_SPRINT]
  counterClaims := context.claims
  naturalDecisionClaims := []

def rolloverTransition (context : TransitionContext p) : SprintTransition p where
  state := context.writeSet
  activity := [context.activity .SPRINT_ROLLED_OVER]
  groundTruth := [context.groundTruth]
  projectionIntents :=
    buildProjectionIntents context []
      [.COMPLETE_SPRINT, .CREATE_SPRINT, .SCOPE_SPRINT, .START_SPRINT]
  counterClaims := context.claims
  naturalDecisionClaims := []

/-! ### Transitions -/

/-- The selected items in the order of their ranks. -/
def rankedSelection (p : Platform) (workItems : List WorkItemState) (selected : List Uuid) :
    List Uuid :=
  ((Ordering.sortOn (simulatorRank p) workItems).filter fun item => item.id ∈ selected).map (·.id)

def activatePlannedSprint (state : LiveTeamState p) (sprint : SprintState) (boundary : ℤ) :
    Result (SprintTransition p) := do
  let draws ← seededDrawSource p state.aggregate
  let selected := selectedScopeIds p state.aggregate sprint.id state.scrum.workItems draws
  let ordered := rankedSelection p state.scrum.workItems selected
  let plan ← plannedScope state sprint.id ordered boundary draws
  let activated ← validated SprintState.validate
    { sprint with lifecycle := .ACTIVE, observedStartAt := some boundary, updatedAt := boundary }
  let writeSet ← ScrumStateWriteSet.create {
    workItems := plan.workItems
    sprints := [activated]
    sprintScope := plan.scope
    statusVisits := plan.visits
    statusVisitSamples := plan.samples }
  return activationTransition
    { state, writeSet, claims := plan.claims, previous := sprint, current := activated, boundary }

def completedSprint (sprint : SprintState) (boundary : ℤ) : Result SprintState :=
  validated SprintState.validate
    { sprint with lifecycle := .COMPLETED, observedEndAt := some boundary, updatedAt := boundary }

def successor (state : LiveTeamState p) (sprint : SprintState) (boundary : ℤ) :
    Result (SprintState × SemanticCounterClaim) := do
  let scope := SemanticCounterScope.sprintOrdinal sprint.teamId
  let counter ← next (fun counter => counter.scope = scope) state.scrum.semanticCounters
  let calendar ← state.calendar
  let rule ← CadenceRule.create state.aggregate.blueprint.scrum.firstBoundary
    state.aggregate.blueprint.scrum.cadenceDays
  let ordinal := counter.nextValue
  let id ← sprintRngId sprint.teamId ordinal
  let plannedStart ← cadenceBoundary calendar rule ordinal
  let plannedEnd ← cadenceBoundary calendar rule (ordinal + 1)
  let row ← validated SprintState.validate {
    id
    teamId := sprint.teamId
    runId := sprint.runId
    ordinal
    lifecycle := .ACTIVE
    plannedStartAt := plannedStart
    plannedEndAt := plannedEnd
    observedStartAt := some boundary
    observedEndAt := none
    createdAt := boundary
    updatedAt := boundary }
  let claim ← SemanticCounterClaim.one scope ordinal
  return (row, claim)

/-- The current scope rows of a sprint, removed at the boundary. -/
def closedScope (state : LiveTeamState p) (sprint : SprintState) (boundary : ℤ) :
    Result (List SprintScopeEntry) :=
  (state.scrum.sprintScope.filter fun entry =>
    entry.sprintId = sprint.id && entry.removedAt.isNone).mapM fun entry =>
      validated SprintScopeEntry.validate { entry with removedAt := some boundary }

def rollActiveSprint (state : LiveTeamState p) (sprint : SprintState) (boundary : ℤ) :
    Result (SprintTransition p) := do
  let (successor, sprintClaim) ← successor state sprint boundary
  let draws ← seededDrawSource p state.aggregate
  let carryIds ← carryoverIds state sprint.id
  let backlogIds ← rankedBacklogIds state successor.id carryIds draws
  let plan ← plannedScope state successor.id backlogIds boundary draws
  let completed ← completedSprint sprint boundary
  -- the carried items leave the sprint that ends, too
  let closed ← closedScope state sprint boundary
  let successorScope ← sprintScopeEntries state successor.id (carryIds ++ backlogIds) boundary
  let writeSet ← ScrumStateWriteSet.create {
    workItems := plan.workItems
    sprints := [completed, successor]
    sprintScope := closed ++ successorScope
    statusVisits := plan.visits
    statusVisitSamples := plan.samples }
  return rolloverTransition
    { state, writeSet, claims := sprintClaim :: plan.claims, previous := sprint,
      current := successor, boundary }

def emptyTransition : SprintTransition p where
  state := .empty
  activity := []
  groundTruth := []
  projectionIntents := []
  counterClaims := []
  naturalDecisionClaims := []

/-- `cross_sprint_boundary`: activate or roll one sprint exactly at its persisted boundary. -/
def crossSprintBoundary (state : LiveTeamState p) (boundary : ℤ) :
    Result (SprintTransition p) :=
  match state.scrum.sprints.find? fun sprint =>
      sprint.lifecycle = .PLANNED && sprint.plannedStartAt = boundary with
  | some planned => activatePlannedSprint state planned boundary
  -- a start that is due goes before an end
  | none =>
    match state.scrum.sprints.find? fun sprint =>
        sprint.lifecycle = .ACTIVE && sprint.plannedEndAt = boundary with
    | some active => rollActiveSprint state active boundary
    | none => .ok emptyTransition

end JiraSimulator
