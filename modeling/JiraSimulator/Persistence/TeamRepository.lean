import JiraSimulator.Domain.TeamRuntime
import JiraSimulator.Library.Keyed
import JiraSimulator.Library.Transition

/-!
# The creation of teams

`CreateTeamService.create` stores the team, blueprint, run and runtime rows of a new team in one
transaction, or returns the team that its idempotency key already names.  The calls of several
clients interleave: each takes one transaction after the other, and the unique constraints of the
tables decide between two that both found their key free.

* `TeamRows`: the four tables.
* `CallStage.next`: one transaction of a call.
* `concurrentCreations`, `serialCreations`: the calls in any order of their transactions, and one
  whole call after the other.
-/

namespace JiraSimulator

open Library Library.Transition

/-! ### Rows -/

/-- A row of `v2_teams`. -/
structure V2TeamModel extends V2Team where
  name : String
  methodology : String

/-- A row of `v2_team_blueprints`; `schema_version` is constant. -/
structure V2TeamBlueprintModel where
  id : Uuid
  teamId : Uuid
  canonicalJson : String
  sha256 : Sha256
  recordedAt : ℤ

/-- The tables of the teams; a run and a runtime row have the fields of their records. -/
structure TeamRows where
  teams : List V2TeamModel
  blueprints : List V2TeamBlueprintModel
  runs : List V2Run
  runtimes : List TeamRuntime

def TeamRows.empty : TeamRows :=
  { teams := [], blueprints := [], runs := [], runtimes := [] }

/-- The whole of a `PersistedTeamAggregate`. -/
structure StoredTeam extends PersistedTeamAggregate where
  name : String
  methodology : String
  blueprintId : Uuid
  blueprintSha256 : Sha256
  blueprintRecordedAt : ℤ

def StoredTeam.teamRow (team : StoredTeam) : V2TeamModel :=
  { toV2Team := team.team, name := team.name, methodology := team.methodology }

def StoredTeam.blueprintRow (team : StoredTeam) : V2TeamBlueprintModel :=
  { id := team.blueprintId, teamId := team.team.id
    canonicalJson := team.blueprint.canonicalDocument, sha256 := team.blueprintSha256
    recordedAt := team.blueprintRecordedAt }

/-- `ResolvedTeamBlueprint.from_canonical_json`: it keeps the document that it accepts, and rejects
the others with the text of a `ValueError`. -/
structure BlueprintReader where
  fromCanonicalJson : String → Except String ResolvedTeamBlueprint
  canonicalDocument : ∀ document blueprint,
    fromCanonicalJson document = .ok blueprint → blueprint.canonicalDocument = document

/-! ### The request -/

/-- A `datetime` with or without a time zone. -/
inductive RequestTime where
  | aware (instant : ℤ)
  | naive (wallClock : ℤ)

structure CreateTeamCommand where
  idempotencyKey : String
  blueprintJson : String
  requestedAt : RequestTime

inductive CreationError where
  | invalidResolvedBlueprint (message : String)
  | teamCreationConflict (message : String)
  | raised (error : PyError)
  /-- The database rolled the transaction back. -/
  | operationalError

/-- `_normalize_request_time`. -/
def normalizeRequestTime : RequestTime → Except CreationError ℤ
  | .aware instant => .ok instant
  | .naive _ => .error (.invalidResolvedBlueprint "requested_at must be aware")

/-- `_new_aggregate` with the fields that only the rows keep. -/
def newStoredTeam (idempotencyKey : String) (blueprint : ResolvedTeamBlueprint) (requestedAt : ℤ) :
    StoredTeam :=
  { toPersistedTeamAggregate := newAggregate idempotencyKey blueprint requestedAt
    name := blueprint.team.name
    methodology := blueprint.team.methodology
    blueprintId := .blueprint (.team blueprint.sha256)
    blueprintSha256 := blueprint.sha256
    blueprintRecordedAt := requestedAt }

/-- The aggregate that `CreateTeamService.create` hands to the repository. -/
def CreateTeamCommand.aggregate (reader : BlueprintReader) (command : CreateTeamCommand) :
    Except CreationError StoredTeam := do
  let requestedAt ← normalizeRequestTime command.requestedAt
  match reader.fromCanonicalJson command.blueprintJson with
  | .error message => .error (.invalidResolvedBlueprint message)
  | .ok blueprint => return newStoredTeam command.idempotencyKey blueprint requestedAt

/-! ### The repository -/

/-- A unique constraint: no row has the value of the new one. -/
def requireUnique {α κ : Type} [DecidableEq κ] (column : α → κ) (rows : List α) (row : α)
    (constraint : String) : Result Unit :=
  if column row ∈ rows.map column then .error (.integrityError constraint) else .ok ()

/-- A foreign key: a row has the value. -/
def requireReference {κ : Type} [DecidableEq κ] (values : List κ) (value : κ)
    (constraint : String) : Result Unit :=
  if value ∈ values then .ok () else .error (.integrityError constraint)

/-- `_add_team`. -/
def addTeam (rows : TeamRows) (team : StoredTeam) : Result TeamRows := do
  let row := team.teamRow
  requireUnique (·.id) rows.teams row "v2_teams.id"
  requireUnique (·.idempotencyKey) rows.teams row "v2_teams.idempotency_key"
  return { rows with teams := rows.teams ++ [row] }

/-- `_add_blueprint`. -/
def addBlueprint (rows : TeamRows) (team : StoredTeam) : Result TeamRows := do
  let row := team.blueprintRow
  requireReference (rows.teams.map (·.id)) row.teamId "v2_team_blueprints.team_id"
  requireUnique (·.id) rows.blueprints row "v2_team_blueprints.id"
  requireUnique (·.teamId) rows.blueprints row "v2_team_blueprints.team_id"
  return { rows with blueprints := rows.blueprints ++ [row] }

/-- `_add_run`. -/
def addRun (rows : TeamRows) (team : StoredTeam) : Result TeamRows := do
  let row := team.run
  requireReference (rows.teams.map (·.id)) row.teamId "v2_runs.team_id"
  requireUnique (·.id) rows.runs row "v2_runs.id"
  requireUnique (fun run : V2Run => (run.teamId, run.ordinal)) rows.runs row
    "uq_v2_runs_team_ordinal"
  return { rows with runs := rows.runs ++ [row] }

/-- `_add_runtime`. -/
def addRuntime (rows : TeamRows) (team : StoredTeam) : Result TeamRows := do
  let row := team.runtime
  requireReference (rows.teams.map (·.id)) row.teamId "v2_team_runtimes.team_id"
  requireReference (rows.runs.map (·.id)) row.runId "v2_team_runtimes.run_id"
  requireUnique (·.id) rows.runtimes row "v2_team_runtimes.id"
  requireUnique (·.teamId) rows.runtimes row "v2_team_runtimes.team_id"
  requireUnique (·.runId) rows.runtimes row "v2_team_runtimes.run_id"
  return { rows with runtimes := rows.runtimes ++ [row] }

/-- `_add_models`: the rows of one transaction. -/
def addModels (rows : TeamRows) (team : StoredTeam) : Result TeamRows := do
  let rows ← addTeam rows team
  let rows ← addBlueprint rows team
  let rows ← addRun rows team
  addRuntime rows team

/-- `_load_aggregate`. -/
def TeamRows.loadAggregate (reader : BlueprintReader) (rows : TeamRows) (team : V2TeamModel) :
    Result StoredTeam :=
  match Keyed.lookup (·.teamId) rows.blueprints team.id, Keyed.lookup (·.teamId) rows.runs team.id,
    Keyed.lookup (·.teamId) rows.runtimes team.id with
  | some blueprint, some run, some runtime =>
    match reader.fromCanonicalJson blueprint.canonicalJson with
    | .error message => .error (.valueError message)
    | .ok document => .ok
      { team := team.toV2Team, blueprint := document, run, runtime
        name := team.name, methodology := team.methodology, blueprintId := blueprint.id
        blueprintSha256 := blueprint.sha256, blueprintRecordedAt := blueprint.recordedAt }
  | _, _, _ => .error (.runtimeError "persisted v2 team aggregate is incomplete")

/-- The aggregate of the team row with a value in a column. -/
def TeamRows.getBy {κ : Type} [DecidableEq κ] (reader : BlueprintReader) (rows : TeamRows)
    (column : V2TeamModel → κ) (value : κ) : Result (Option StoredTeam) :=
  match Keyed.lookup column rows.teams value with
  | none => .ok none
  | some team => some <$> rows.loadAggregate reader team

/-- `get_by_id`. -/
def TeamRows.getById (reader : BlueprintReader) (rows : TeamRows) (teamId : Uuid) :
    Result (Option StoredTeam) :=
  rows.getBy reader (·.id) teamId

/-- `get_by_idempotency_key`. -/
def TeamRows.getByIdempotencyKey (reader : BlueprintReader) (rows : TeamRows) (key : String) :
    Result (Option StoredTeam) :=
  rows.getBy reader (·.idempotencyKey) key

/-- `_resolve_existing`. -/
def resolveExisting (existing submitted : StoredTeam) : Except CreationError StoredTeam :=
  if existing.blueprintSha256 ≠ submitted.blueprintSha256 then
    .error (.teamCreationConflict
      "idempotency key is already associated with a different blueprint")
  else .ok existing

/-! ### Calls -/

/-- Where a call of `create` is. -/
inductive CallStage where
  | waiting
  /-- Its key was free in the transaction that will insert the rows. -/
  | inserting (submitted : StoredTeam)
  /-- The transaction was rolled back. -/
  | refused (submitted : StoredTeam) (error : PyError)
  | ended (result : Except CreationError StoredTeam)

/-- What the lookup of the key leads to: the team found, or else the given stage. -/
def CallStage.lookup (reader : BlueprintReader) (rows : TeamRows) (submitted : StoredTeam)
    (otherwise : CallStage) : CallStage :=
  match rows.getByIdempotencyKey reader submitted.team.idempotencyKey with
  | .error error => .ended (.error (.raised error))
  | .ok (some existing) => .ended (resolveExisting existing submitted)
  | .ok none => otherwise

/-- One step of `SqlAlchemyV2TeamRepository.create`: the lookup, the insertion that the constraints
check, and the second lookup after an `IntegrityError`. -/
def CallStage.next (reader : BlueprintReader) (command : CreateTeamCommand) (rows : TeamRows) :
    CallStage → TeamRows × CallStage
  | .waiting =>
    match command.aggregate reader with
    | .error error => (rows, .ended (.error error))
    | .ok submitted => (rows, .lookup reader rows submitted (.inserting submitted))
  | .inserting submitted =>
    match addModels rows submitted with
    | .ok rows' => (rows', .ended (.ok submitted))
    | .error (.integrityError constraint) =>
      (rows, .refused submitted (.integrityError constraint))
    | .error error => (rows, .ended (.error (.raised error)))
  | .refused submitted error =>
    (rows, .lookup reader rows submitted (.ended (.error (.raised error))))
  | .ended result => (rows, .ended result)

/-- A whole call of `create`, with no other transaction between its steps. -/
def createTeam (reader : BlueprintReader) (command : CreateTeamCommand) (rows : TeamRows) :
    TeamRows × CallStage :=
  let (rows, stage) := CallStage.waiting.next reader command rows
  let (rows, stage) := stage.next reader command rows
  stage.next reader command rows

/-! ### Systems of calls -/

structure CreationCall where
  command : CreateTeamCommand
  stage : CallStage

structure CreationSystem where
  rows : TeamRows
  calls : List CreationCall

/-- The first state of a system that serves the commands. -/
def CreationSystem.initial (commands : List CreateTeamCommand) : CreationSystem :=
  { rows := .empty, calls := commands.map fun command => { command, stage := .waiting } }

inductive CreationEvent where
  /-- A call takes its next step. -/
  | call (index : ℕ)
  /-- The open transaction of a call is rolled back. -/
  | abort (index : ℕ)
  /-- A transaction of a team's run writes its runtime row. -/
  | run (runtime : TeamRuntime)

/-- The runtime row with the columns that a run writes. -/
def TeamRuntime.withProgress (row progress : TeamRuntime) : TeamRuntime :=
  { row with
    version := progress.version, state := progress.state
    simulationTime := progress.simulationTime, nextWakeAt := progress.nextWakeAt
    updatedAt := progress.updatedAt }

def TeamRows.withProgress (rows : TeamRows) (progress : TeamRuntime) : TeamRows :=
  { rows with
    runtimes := rows.runtimes.map fun row =>
      if row.id = progress.id then row.withProgress progress else row }

/-- A call that has not ended fails. -/
def CallStage.abort : CallStage → CallStage
  | .ended result => .ended result
  | _ => .ended (.error .operationalError)

def CreationSystem.update (system : CreationSystem) (index : ℕ)
    (advance : CreationCall → TeamRows × CallStage) : CreationSystem :=
  match system.calls[index]? with
  | none => system
  | some call =>
    let (rows, stage) := advance call
    { rows, calls := system.calls.set index { call with stage } }

/-- One step of a system whose calls advance by `advance`. -/
def CreationSystem.next
    (advance : CreateTeamCommand → TeamRows → CallStage → TeamRows × CallStage)
    (system : CreationSystem) : CreationEvent → CreationSystem
  | .call index => system.update index fun call => advance call.command system.rows call.stage
  | .abort index => system.update index fun call => (system.rows, call.stage.abort)
  | .run progress => { system with rows := system.rows.withProgress progress }

/-- A whole call, for a call that waits. -/
def CallStage.whole (reader : BlueprintReader) (command : CreateTeamCommand) (rows : TeamRows) :
    CallStage → TeamRows × CallStage
  | .waiting => createTeam reader command rows
  | stage => (rows, stage)

/-- The calls interleave their transactions in any order. -/
def concurrentCreations (reader : BlueprintReader) :
    System (List CreateTeamCommand) CreationSystem CreationEvent where
  start commands system := system = .initial commands
  step system event system' :=
    system' = system.next (CallStage.next reader) event

/-- One call is served after the other. -/
def serialCreations (reader : BlueprintReader) :
    System (List CreateTeamCommand) CreationSystem CreationEvent where
  start commands system := system = .initial commands
  step system event system' :=
    system' = system.next (CallStage.whole reader) event

/-- The stage as the client sees it: a call that has not ended has not begun. -/
def CallStage.served : CallStage → CallStage
  | .ended result => .ended result
  | _ => .waiting

def CreationSystem.served (system : CreationSystem) : CreationSystem :=
  { system with
    calls := system.calls.map fun call => { call with stage := call.stage.served } }

end JiraSimulator
