import JiraSimulator.Domain.TeamRuntime
import JiraSimulator.Library.Paging

/-!
# One pass of the scheduler

A pass reads the due teams page by page behind a cursor and advances each of them.  An advance can
raise and can write any runtime, so the pages are read from tables that the pass itself has changed.
-/

namespace JiraSimulator

open Library

variable {p : Platform}

/-- The position of an identifier in the order of the texts. -/
def uuidOrder (p : Platform) (id : Uuid) : ℤ :=
  p.uuidInt id

/-- The position of a runtime in the order of its team. -/
def teamOrder (p : Platform) (runtime : TeamRuntime) : ℤ :=
  uuidOrder p runtime.teamId

/-- The persisted runtimes, with the unique constraint on their teams. -/
structure RuntimeTable (p : Platform) where
  rows : List TeamRuntime
  unique : (rows.map (teamOrder p)).Nodup

/-- The conditions of the query for due teams. -/
def TeamRuntime.isDue (runtime : TeamRuntime) (asOf : ℤ) : Bool :=
  runtime.state = "RUNNING" && runtime.nextWakeAt.any fun instant => instant ≤ asOf

/-- The greatest limit of the query, and its default. -/
def maxDueTeams : ℕ := 100

def RuntimeTable.dueTeamIds (table : RuntimeTable p) (asOf : ℤ) (limit : ℕ)
    (afterTeamId : Option Uuid) : Result (List Uuid) := do
  require (1 ≤ limit ∧ limit ≤ maxDueTeams) "limit must be between 1 and 100"
  let due := table.rows.filter fun runtime => runtime.isDue asOf
  return (Paging.page (teamOrder p) limit (afterTeamId.map (uuidOrder p)) due).map (·.teamId)

/-- What the n-th call of `_advance` in a pass does to the runtimes and whether it raises.  It can
write every column but the team. -/
structure TeamAdvance (p : Platform) where
  run : ℕ → Uuid → RuntimeTable p → RuntimeTable p × Result Unit
  teams_eq : ∀ n team table,
    (run n team table).1.rows.map (·.teamId) = table.rows.map (·.teamId)

structure SchedulerRunResult where
  attempted : List Uuid := []
  succeeded : List Uuid := []
  failed : List Uuid := []
  deriving DecidableEq, Repr

/-- The result that a page extends. -/
def SchedulerRunResult.extend (result page : SchedulerRunResult) : SchedulerRunResult where
  attempted := result.attempted ++ page.attempted
  succeeded := result.succeeded ++ page.succeeded
  failed := result.failed ++ page.failed

/-- The teams that the loop of `_run` sorts into two lists. -/
def runOperations (advance : TeamAdvance p) :
    ℕ → List Uuid → RuntimeTable p → RuntimeTable p × List Uuid × List Uuid
  | _, [], table => (table, [], [])
  | n, team :: teams, table =>
    let called := advance.run n team table
    let rest := runOperations advance (n + 1) teams called.1
    match called.2 with
    | .ok _ => (rest.1, team :: rest.2.1, rest.2.2)
    | .error _ => (rest.1, rest.2.1, team :: rest.2.2)

/-- `_run`. -/
def runTeams (advance : TeamAdvance p) (n : ℕ) (teamIds : List Uuid) (table : RuntimeTable p) :
    RuntimeTable p × SchedulerRunResult :=
  let called := runOperations advance n teamIds table
  (called.1, { attempted := teamIds, succeeded := called.2.1, failed := called.2.2 })

/-- The runtimes and the local variables of a pass. -/
structure SchedulerPass (p : Platform) where
  runtimes : RuntimeTable p
  cursor : Option Uuid := none
  result : SchedulerRunResult := {}

/-- One round of `_drain_due_pages`; without due teams the pass is over. -/
def SchedulerPass.round (advance : TeamAdvance p) (asOf : ℤ) (pass : SchedulerPass p) :
    Result (Option (SchedulerPass p)) := do
  let teamIds ← pass.runtimes.dueTeamIds asOf maxDueTeams pass.cursor
  match teamIds.getLast? with
  | none => return none
  | some last =>
    let page := runTeams advance pass.result.attempted.length teamIds pass.runtimes
    return some { runtimes := page.1, cursor := some last, result := pass.result.extend page.2 }

/-- `_drain_due_pages`; without a result it still runs after the given number of rounds. -/
def drainDuePages (advance : TeamAdvance p) (asOf : ℤ) :
    ℕ → SchedulerPass p → Option (Result (SchedulerPass p))
  | 0, _ => none
  | rounds + 1, pass =>
    match pass.round advance asOf with
    | .error e => some (.error e)
    | .ok none => some (.ok pass)
    | .ok (some next) => drainDuePages advance asOf rounds next

end JiraSimulator
