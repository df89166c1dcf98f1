import JiraSimulator.Library.Transition
import JiraSimulator.Persistence.UnitOfWork

/-!
# Runs of a live team

`ensureBootstrapped` writes the first Scrum state of a new team and its Jira provisioning in one
transaction.  From then on the team changes only through the steps of `stepTeam`: ticks, the
commands of a restart, and later bootstrap calls, in any order.  `teamRuns` is the transition
system of these runs; each step is one transaction, so a step that fails leaves the store as it was.
-/

namespace JiraSimulator

open Library Library.Transition

variable {p : Platform}

/-! ### Bootstrap -/

/-- `_first_wake_at`. -/
def firstWakeAt (aggregate : PersistedTeamAggregate) (startedAt : ℤ) : ℤ :=
  let boundary := aggregate.blueprint.scrum.firstBoundary
  if startedAt < boundary then boundary else startedAt

/-- `_running_runtime`. -/
def runningRuntime (aggregate : PersistedTeamAggregate) (startedAt : ℤ) : TeamRuntime :=
  { aggregate.runtime with
    state := "RUNNING"
    simulationTime := startedAt
    nextWakeAt := some (firstWakeAt aggregate startedAt)
    updatedAt := startedAt }

/-- The store after its first Scrum state was written. -/
def bootstrappedStore (store : TeamStore p) (state : LiveTeamState p) (startedAt : ℤ) :
    Result (TeamStore p) := do
  let draws ← seededDrawSource p state.aggregate
  let initial ← buildInitialScrumState state.aggregate startedAt draws
  let scrum ← candidateSnapshot state.aggregate.blueprint state.scrum initial
  return { store with
    aggregate := { state.aggregate with runtime := runningRuntime state.aggregate startedAt }
    scrum }

/-- `append_projection_intents_in_session`. -/
def appendProjectionIntents (store : TeamStore p) (slice : TickSliceCommit) :
    Result (TeamStore p) := do
  slice.validate
  require (slice.activity = [] ∧ slice.groundTruth = [])
    "bootstrap projection slice must contain only projection intents"
  let projection ← appendDrafts (·.semanticKey) store.projection slice.projectionIntents
  return { store with projection }

/-- `ensure_bootstrapped`. -/
def ensureBootstrapped (store : TeamStore p) (startedAt : ℤ) : Result (TeamStore p) := do
  let state ← store.load
  if state.aggregate.runtime.state ≠ "CREATED" then
    let provisioning ← composeJiraProvisioning state
    appendProjectionIntents store provisioning
  else
    let bootstrapped ← bootstrappedStore store state startedAt
    let provisioning ← composeInitialJiraProvisioning
      { aggregate := bootstrapped.aggregate, scrum := bootstrapped.scrum }
    appendProjectionIntents bootstrapped provisioning

/-! ### Steps -/

/-- What can happen to a bootstrapped team. -/
inductive TeamEvent where
  /-- `TeamTickService.advance`. -/
  | tick (request : TickRequest) (draws : DrawSource)
  /-- `_record_downtime_evidence` of a restart at `asOf`. -/
  | downtimeEvidence (asOf : ℤ)
  /-- `_commit_lifecycle_boundary` at the next boundary of a restart at `asOf`. -/
  | lifecycleBoundary (asOf : ℤ)
  /-- `_skip_silent_downtime` of a restart at `asOf`. -/
  | skipDowntime (asOf : ℤ)
  /-- A later call of `ensure_bootstrapped`. -/
  | bootstrap (startedAt : ℤ)

/-- The command that an event commits, or none when a restart has nothing to do. -/
def commandFor (state : LiveTeamState p) :
    TeamEvent → Result (Option (AuthoritativeTickSliceCommit p))
  | .tick request draws => some <$> calculateScrumTick state request draws
  | .downtimeEvidence asOf =>
    if cursor state < asOf then some <$> downtimeEvidenceCommand state asOf else .ok none
  | .lifecycleBoundary asOf =>
    match nextBoundary state asOf with
    | some boundary =>
      if cursor state < asOf then some <$> lifecycleBoundaryCommand state boundary asOf
      else .ok none
    | none => .ok none
  | .skipDowntime asOf =>
    if cursor state < asOf ∧ nextBoundary state asOf = none then
      some <$> skipDowntimeCommand state asOf
    else .ok none
  | .bootstrap _ => .ok none

/-- One transaction on the store of a team. -/
def stepTeam (store : TeamStore p) (event : TeamEvent) : Result (TeamStore p) :=
  match event with
  | .bootstrap startedAt => ensureBootstrapped store startedAt
  | event => do
    let state ← store.load
    match ← commandFor state event with
    | none => return store
    | some command => commitAuthoritativeSlice store command

/-! ### Runs -/

/-- A new team: its blueprint and the times of its creation and its bootstrap. -/
structure TeamStart where
  idempotencyKey : String
  blueprint : ResolvedTeamBlueprint
  requestedAt : ℤ
  startedAt : ℤ

/-- `ScrumStateSnapshot()`. -/
def ScrumStateSnapshot.empty : ScrumStateSnapshot p :=
  { toScrumCollections := {}, valid := rfl }

/-- The store of a created team before its bootstrap. -/
def createdStore (p : Platform) (start : TeamStart) : TeamStore p where
  aggregate := newAggregate start.idempotencyKey start.blueprint start.requestedAt
  scrum := .empty
  activity := []
  groundTruth := []
  projection := []

/-- The runs of one team, from its bootstrap on. -/
def teamRuns (p : Platform) : System TeamStart (TeamStore p) TeamEvent where
  start team store := ensureBootstrapped (createdStore p team) team.startedAt = .ok store
  step store event store' := stepTeam store event = .ok store'

end JiraSimulator
