import JiraSimulator.Persistence.CommitAttempts

/-!
# Concurrent callers of one team

The tick service, the resume of the scheduler and their retries each load the state of the team,
compute a command from it, and submit the command.  Their steps interleave in any order: other
commits may come between the load of a caller and its commit, and a caller may submit its command
again or stop anywhere.
-/

namespace JiraSimulator

open Library.Transition

variable {p : Platform}

/-! ### Callers -/

/-- The commands that the callers compute. -/
inductive CallerTask where
  /-- `TeamTickService.advance`. -/
  | tick (request : TickRequest) (draws : DrawSource)
  /-- `_record_downtime_evidence`. -/
  | downtimeEvidence (asOf : ℤ)
  /-- `_commit_lifecycle_boundary`. -/
  | lifecycleBoundary (boundary recordedAt : ℤ)
  /-- `_skip_silent_downtime`. -/
  | skipDowntime (asOf : ℤ)

def CallerTask.command (state : LiveTeamState p) :
    CallerTask → Result (AuthoritativeTickSliceCommit p)
  | .tick request draws => calculateScrumTick state request draws
  | .downtimeEvidence asOf => downtimeEvidenceCommand state asOf
  | .lifecycleBoundary boundary recordedAt => lifecycleBoundaryCommand state boundary recordedAt
  | .skipDowntime asOf => skipDowntimeCommand state asOf

/-- What a caller holds. -/
inductive Caller (p : Platform) where
  | idle
  | loaded (state : LiveTeamState p)
  | computed (state : LiveTeamState p) (task : CallerTask)
      (command : AuthoritativeTickSliceCommit p)

/-- A committed command, with the task that it was computed for. -/
structure Submission (p : Platform) where
  task : CallerTask
  command : AuthoritativeTickSliceCommit p

/-- The store of the team, its callers, and the commits so far. -/
structure CallerSystem (p : Platform) where
  store : TeamStore p
  callers : ℕ → Caller p
  log : List (Submission p)

/-! ### Steps -/

inductive CallerEvent where
  | load
  | compute (task : CallerTask)
  /-- The caller submits its command, for the first time or again. -/
  | commit
  /-- The caller gives up or stops. -/
  | drop

/-- The callers after one of them changed. -/
def CallerSystem.withCaller (system : CallerSystem p) (index : ℕ) (caller : Caller p) :
    CallerSystem p :=
  { system with callers := Function.update system.callers index caller }

/-- The load of a caller. -/
def CallerSystem.load (system : CallerSystem p) (index : ℕ) : CallerSystem p :=
  match system.store.load with
  | .ok state => system.withCaller index (.loaded state)
  | .error _ => system.withCaller index .idle

/-- The computation of a caller, from the state that it loaded. -/
def CallerSystem.compute (system : CallerSystem p) (index : ℕ) (task : CallerTask) :
    CallerSystem p :=
  match system.callers index with
  | .loaded state =>
    match task.command state with
    | .ok command => system.withCaller index (.computed state task command)
    | .error _ => system.withCaller index .idle
  | _ => system

/-- The transaction of a caller, which is logged when it commits. -/
def CallerSystem.commit (system : CallerSystem p) (index : ℕ) : CallerSystem p :=
  match system.callers index with
  | .computed _ task command =>
    match commitTransaction system.store command with
    | (store, none) => { system with store, log := system.log ++ [{ task, command }] }
    | (store, some _) => { system with store }
  | _ => system

def CallerSystem.next (system : CallerSystem p) (index : ℕ) : CallerEvent → CallerSystem p
  | .load => system.load index
  | .compute task => system.compute index task
  | .commit => system.commit index
  | .drop => system.withCaller index .idle

/-- The interleavings of the callers of one team, from its bootstrap on. -/
def callerRuns (p : Platform) : System TeamStart (CallerSystem p) (ℕ × CallerEvent) where
  start team system := ensureBootstrapped (createdStore p team) team.startedAt = .ok system.store ∧
    (∀ index, system.callers index = .idle) ∧ system.log = []
  step system event system' := system' = system.next event.1 event.2

/-- One caller alone: it loads, computes and commits. -/
def serialStep (store : TeamStore p) (task : CallerTask) : Result (TeamStore p) := do
  let state ← store.load
  let command ← task.command state
  commitAuthoritativeSlice store command

end JiraSimulator
