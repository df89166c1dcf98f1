import JiraSimulator.Domain.LiveSlice
import JiraSimulator.Domain.SprintLifecycle

/-!
# Jira provisioning

The intents that create the project, the board and the initial issues of a team run, and the sprint
that is active from the bootstrap on.
-/

namespace JiraSimulator

variable {p : Platform}

/-- `_ProvisioningContext`. -/
structure ProvisioningContext (p : Platform) where
  state : LiveTeamState p
  recordedAt : ℤ

/-- `_provisioning_context`: recorded when the first work item was created. -/
def provisioningContext (state : LiveTeamState p) : Result (ProvisioningContext p) :=
  match (state.scrum.workItems.map (·.createdAt)).min? with
  | none => .error (.valueError "min() iterable argument is empty")
  | some recordedAt => .ok { state, recordedAt }

/-- `_intent`. -/
def provisioningIntent (context : ProvisioningContext p) (suffix : ProvisioningSuffix)
    (operation : ProjectionOperation) (aggregateId : Uuid) (payload : ProjectionPayload)
    (dependsOn : List SemanticKey) : ProjectionIntentDraft where
  semanticKey := .jiraProvisioning context.state.aggregate.team.id
    context.state.aggregate.runtime.runId suffix
  occurredAt := context.recordedAt
  payload := payload
  dependsOn := dependsOn
  operationType := operation
  aggregateId := aggregateId
  aggregateVersion := 1

/-- `_project_intent`. -/
def projectIntent (context : ProvisioningContext p) : ProjectionIntentDraft :=
  let jira := context.state.aggregate.blueprint.jira
  provisioningIntent context .project .CREATE_PROJECT context.state.aggregate.team.id
    (.createProject jira.projectName jira.projectKey) []

/-- `_board_intent`. -/
def boardIntent (context : ProvisioningContext p) (projectKey : SemanticKey) :
    ProjectionIntentDraft :=
  let jira := context.state.aggregate.blueprint.jira
  provisioningIntent context .board .CREATE_BOARD context.state.aggregate.team.id
    (.createBoard jira.projectKey jira.projectName) [projectKey]

/-- `_issue_intent`. -/
def issueIntent (context : ProvisioningContext p) (boardKey : SemanticKey)
    (work : WorkItemState) : ProjectionIntentDraft :=
  provisioningIntent context (.issue work.id) .CREATE_ISSUE work.id
    (.createIssue work.id work.issueType context.state.aggregate.blueprint.jira.projectKey
      (work.creationSequence + 1))
    [boardKey]

/-- The intents of the board and of every work item, which depend on the project. -/
def boardAndIssueIntents (context : ProvisioningContext p) : List ProjectionIntentDraft :=
  let board := boardIntent context (projectIntent context).semanticKey
  board :: context.state.scrum.workItems.map (issueIntent context board.semanticKey)

/-- `_provisioning_intents`: the project, the board and every issue. -/
def provisioningIntents (context : ProvisioningContext p) : List ProjectionIntentDraft :=
  projectIntent context :: boardAndIssueIntents context

/-- `_create_sprint_intent`. -/
def createSprintIntent (context : ProvisioningContext p) (sprint : SprintState)
    (dependencies : List SemanticKey) : ProjectionIntentDraft :=
  provisioningIntent context (.sprintCreate sprint.id) .CREATE_SPRINT sprint.id
    (.createSprint sprint.id context.state.aggregate.team.id
      context.state.aggregate.blueprint.jira.projectKey sprint.plannedStartAt sprint.plannedEndAt)
    dependencies

/-- `_scope_sprint_intent`. -/
def scopeSprintIntent (context : ProvisioningContext p) (sprint : SprintState)
    (dependency : SemanticKey) : ProjectionIntentDraft :=
  provisioningIntent context (.sprintScope sprint.id) .SCOPE_SPRINT sprint.id
    (.scopeSprint sprint.id (scopedIssueIds context.state.scrum.sprintScope sprint.id))
    [dependency]

/-- `_start_sprint_intent`. -/
def startSprintIntent (context : ProvisioningContext p) (sprint : SprintState)
    (dependency : SemanticKey) : ProjectionIntentDraft :=
  provisioningIntent context (.sprintStart sprint.id) .START_SPRINT sprint.id
    (.startSprint sprint.id) [dependency]

/-- `_active_sprint_intents`: the sprint is created, gets its issues, and starts. -/
def activeSprintIntents (context : ProvisioningContext p) (sprint : SprintState)
    (predecessors : List ProjectionIntentDraft) : List ProjectionIntentDraft :=
  let created := createSprintIntent context sprint (predecessors.map (·.semanticKey))
  let scope := scopeSprintIntent context sprint created.semanticKey
  let started := startSprintIntent context sprint scope.semanticKey
  [created, scope, started]

/-- `_initial_provisioning_intents`, with those of the active sprint. -/
def initialProvisioningIntents (context : ProvisioningContext p) : List ProjectionIntentDraft :=
  match context.state.scrum.sprints.find? (fun sprint => sprint.lifecycle = .ACTIVE) with
  | none => provisioningIntents context
  | some active =>
    provisioningIntents context ++
      activeSprintIntents context active (boardAndIssueIntents context)

/-- `_provisioning_commit`. -/
def provisioningCommit (context : ProvisioningContext p) (intents : List ProjectionIntentDraft) :
    Result TickSliceCommit :=
  let runtime := context.state.aggregate.runtime
  validated TickSliceCommit.validate {
    commitId := .jiraProvisioning runtime.teamId runtime.runId
    teamId := runtime.teamId
    runId := runtime.runId
    expectedRuntimeVersion := runtime.version
    runtimeAfter := {
      state := runtime.state, simulationTime := runtime.simulationTime
      nextWakeAt := runtime.nextWakeAt }
    activity := []
    groundTruth := []
    projectionIntents := intents
    recordedAt := context.recordedAt }

/-- `compose_jira_provisioning`. -/
def composeJiraProvisioning (state : LiveTeamState p) : Result TickSliceCommit := do
  let context ← provisioningContext state
  provisioningCommit context (provisioningIntents context)

/-- `compose_initial_jira_provisioning`. -/
def composeInitialJiraProvisioning (state : LiveTeamState p) : Result TickSliceCommit := do
  let context ← provisioningContext state
  provisioningCommit context (initialProvisioningIntents context)

end JiraSimulator
