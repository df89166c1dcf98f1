import JiraSimulator.Application.JiraDelivery
import JiraSimulator.Persistence.LiveTeamStore

/-!
# Teams and delivery on one database

The scheduler advances the teams and the delivery workers deliver their intents, both on one
database.  A transaction of a team appends the intents that are new in its ledger to the rows that
the workers read; only these transactions append intents.  `databaseRuns` is the transition system
of all interleavings.
-/

namespace JiraSimulator

open Library.Transition

variable {p : Platform}

/-- The stores of the bootstrapped teams, and the delivery. -/
structure TeamDatabase (p : Platform) where
  teams : Uuid → Option (TeamStore p)
  delivery : DeliverySystem

inductive DatabaseEvent where
  /-- A team is created and bootstrapped. -/
  | create (start : TeamStart)
  /-- A transaction of a bootstrapped team. -/
  | team (teamId : Uuid) (event : TeamEvent)
  /-- An interaction of a delivery worker. -/
  | worker (event : DeliveryEvent)

namespace TeamDatabase

/-- The database after a transaction of a team whose ledger held `known` intents before. -/
def write (database : TeamDatabase p) (teamId : Uuid) (known : ℕ) (store : TeamStore p) :
    Result (TeamDatabase p) := do
  let rows ← database.delivery.rows.appendIntents teamId (store.projection.drop known)
  return {
    teams := Function.update database.teams teamId (some store)
    delivery := { database.delivery with rows } }

/-- One event; an event that raises leaves the database as it was. -/
def step (database : TeamDatabase p) : DatabaseEvent → Result (TeamDatabase p)
  | .create start =>
    let teamId := Uuid.team start.blueprint.sha256
    match database.teams teamId with
    | some _ => .ok database
    | none => do
      let store ← ensureBootstrapped (createdStore p start) start.startedAt
      database.write teamId 0 store
  | .team teamId event =>
    match database.teams teamId with
    | none => .error (.lookupError "team not found")
    | some store => do
      let store' ← stepTeam store event
      database.write teamId store.projection.length store'
  | .worker (.append _ _) => .ok database
  | .worker event => .ok { database with delivery := database.delivery.step event }

def empty : TeamDatabase p where
  teams _ := none
  delivery := .empty

end TeamDatabase

/-- The runs of all teams and workers on one database. -/
def databaseRuns (p : Platform) : System Unit (TeamDatabase p) DatabaseEvent where
  start _ database := database = .empty
  step database event database' := database.step event = .ok database'

end JiraSimulator
