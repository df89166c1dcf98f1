import JiraSimulator.Domain.BusinessCalendar
import JiraSimulator.Domain.ScrumCollections

/-!
# The persisted team aggregate

The team, its run and its runtime row, and the coherent read of runtime and Scrum state that every
operation starts from.
-/

namespace JiraSimulator

structure V2Team where
  id : Uuid
  idempotencyKey : String
  blueprintSha256 : Sha256
  createdAt : ℤ

structure V2Run where
  id : Uuid
  teamId : Uuid
  ordinal : ℕ
  state : String
  createdAt : ℤ

structure TeamRuntime where
  id : Uuid
  teamId : Uuid
  runId : Uuid
  version : ℕ
  state : String
  simulationTime : ℤ
  nextWakeAt : Option ℤ
  createdAt : ℤ
  updatedAt : ℤ
  deriving DecidableEq, Repr

structure PersistedTeamAggregate where
  team : V2Team
  blueprint : ResolvedTeamBlueprint
  run : V2Run
  runtime : TeamRuntime

/-- The runtime and Scrum state of one coherent read. -/
structure LiveTeamState (p : Platform) where
  aggregate : PersistedTeamAggregate
  scrum : ScrumStateSnapshot p

variable {p : Platform}

/-- `SeededDrawSource`: the draws of the blueprint seed and the active run. -/
def seededDrawSource (p : Platform) (aggregate : PersistedTeamAggregate) : Result DrawSource := do
  let stream ← DeterministicRandomStream.create aggregate.blueprint.seed aggregate.team.id
    aggregate.runtime.runId
  return stream.draw p

/-- The calendar of the team. -/
def LiveTeamState.calendar (state : LiveTeamState p) : Result BusinessCalendar :=
  BusinessCalendar.fromBlueprint p state.aggregate.blueprint.team.timezone
    state.aggregate.blueprint.calendar

/-- `_with_write_set`: the state with the rows of a write set assigned by identity. -/
def LiveTeamState.withWriteSet (state : LiveTeamState p) (changes : ScrumStateWriteSet p) :
    Result (LiveTeamState p) := do
  let scrum ← state.scrum.withWriteSet changes
  return { aggregate := state.aggregate, scrum }

/-! ### New teams -/

/-- `CreateTeamService._new_aggregate`: the aggregate of a team that has not been bootstrapped. -/
def newAggregate (idempotencyKey : String) (blueprint : ResolvedTeamBlueprint)
    (requestedAt : ℤ) : PersistedTeamAggregate :=
  let teamId := Uuid.team blueprint.sha256
  let runId := Uuid.run teamId 0
  { team := { id := teamId, idempotencyKey, blueprintSha256 := blueprint.sha256,
              createdAt := requestedAt }
    blueprint
    run := { id := runId, teamId, ordinal := 0, state := "CREATED", createdAt := requestedAt }
    runtime := { id := .runtime teamId, teamId, runId, version := 0, state := "CREATED",
                 simulationTime := requestedAt, nextWakeAt := none, createdAt := requestedAt,
                 updatedAt := requestedAt } }

end JiraSimulator
