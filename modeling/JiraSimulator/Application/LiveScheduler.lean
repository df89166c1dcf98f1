import JiraSimulator.Domain.SprintLifecycle

/-!
# Commands of a restart

After a restart the scheduler records the downtime, commits every sprint boundary inside it, and
then skips to the present.  Each command advances the runtime version; only the last one moves the
simulation time.
-/

namespace JiraSimulator

variable {p : Platform}

/-- `_boundary_for`: the next boundary of a sprint. -/
def boundaryFor (sprint : SprintState) : Option ℤ :=
  match sprint.lifecycle with
  | .PLANNED => some sprint.plannedStartAt
  | .ACTIVE => some sprint.plannedEndAt
  | .COMPLETED => none

/-- `_next_boundary`: the first sprint boundary from the cursor on, up to `asOf`. -/
def nextBoundary (state : LiveTeamState p) (asOf : ℤ) : Option ℤ :=
  ((state.scrum.sprints.filterMap boundaryFor).filter fun instant =>
    state.aggregate.runtime.simulationTime ≤ instant && instant ≤ asOf).min?

def downtimeActivity (state : LiveTeamState p) (startsAt endsAt : ℤ) : ActivityEventDraft where
  semanticKey := .restartGap state.aggregate.runtime.teamId state.aggregate.runtime.runId startsAt
    endsAt
  occurredAt := endsAt
  payload := .downtime startsAt endsAt
  eventType := .DOWNTIME_SKIPPED
  aggregateType := .RUNTIME
  aggregateId := state.aggregate.runtime.id
  aggregateVersion := 0

def downtimeGroundTruth (state : LiveTeamState p) (startsAt endsAt : ℤ) :
    GroundTruthRecordDraft where
  semanticKey := .restartGap state.aggregate.runtime.teamId state.aggregate.runtime.runId startsAt
    endsAt
  occurredAt := endsAt
  payload := .downtime startsAt endsAt

/-- `_downtime_command`. -/
def downtimeCommand (state : LiveTeamState p) (runtimeAfter : RuntimeAdvance) (recordedAt : ℤ)
    (activity : List ActivityEventDraft) (groundTruth : List GroundTruthRecordDraft) :
    Result (AuthoritativeTickSliceCommit p) := do
  let runtime := state.aggregate.runtime
  let slice ← validated TickSliceCommit.validate {
    commitId := .restart runtime.teamId runtime.runId runtime.version runtimeAfter.simulationTime
    teamId := runtime.teamId
    runId := runtime.runId
    expectedRuntimeVersion := runtime.version
    runtimeAfter, activity, groundTruth
    projectionIntents := []
    recordedAt }
  AuthoritativeTickSliceCommit.create slice .empty [] []

/-- The command of `_record_downtime_evidence`, for the downtime from the cursor to `asOf`. -/
def downtimeEvidenceCommand (state : LiveTeamState p) (asOf : ℤ) :
    Result (AuthoritativeTickSliceCommit p) :=
  let runtime := state.aggregate.runtime
  downtimeCommand state
    { state := runtime.state, simulationTime := runtime.simulationTime
      nextWakeAt := runtime.nextWakeAt }
    asOf
    [downtimeActivity state runtime.simulationTime asOf]
    [downtimeGroundTruth state runtime.simulationTime asOf]

/-- The command of `_skip_silent_downtime`. -/
def skipDowntimeCommand (state : LiveTeamState p) (asOf : ℤ) :
    Result (AuthoritativeTickSliceCommit p) :=
  downtimeCommand state
    { state := state.aggregate.runtime.state, simulationTime := asOf, nextWakeAt := some asOf }
    asOf [] []

/-- The command of `_commit_lifecycle_boundary`. -/
def lifecycleBoundaryCommand (state : LiveTeamState p) (boundary recordedAt : ℤ) :
    Result (AuthoritativeTickSliceCommit p) := do
  let transition ← crossSprintBoundary state boundary
  let runtime := state.aggregate.runtime
  let slice ← validated TickSliceCommit.validate {
    commitId := .restartLifecycle runtime.teamId runtime.runId runtime.version boundary
    teamId := runtime.teamId
    runId := runtime.runId
    expectedRuntimeVersion := runtime.version
    runtimeAfter := {
      state := runtime.state, simulationTime := runtime.simulationTime
      nextWakeAt := runtime.nextWakeAt }
    activity := transition.activity
    groundTruth := transition.groundTruth
    projectionIntents := transition.projectionIntents
    recordedAt }
  AuthoritativeTickSliceCommit.create slice transition.state transition.counterClaims
    transition.naturalDecisionClaims

end JiraSimulator
