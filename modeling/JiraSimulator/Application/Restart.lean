import JiraSimulator.Persistence.LiveTeamStore

/-!
# The restart of a team

A restart is a program of transactions: it records the downtime, commits the sprint boundaries
inside it one by one, and skips to the present.  A failure ends it and keeps what was committed
before.
-/

namespace JiraSimulator

variable {p : Platform}

/-- One transaction of a restart. -/
def TeamStore.transact (store : TeamStore p) (event : TeamEvent) : TeamStore p × Result Unit :=
  match stepTeam store event with
  | .ok store' => (store', .ok ())
  | .error error => (store, .error error)

/-- The loop of `_resume`; the boundaries follow each other, so that it leaves the downtime before
its fuel is used up. -/
def TeamStore.resumeFrom (asOf : ℤ) : ℕ → TeamStore p → TeamStore p × Result Unit
  | 0, store => (store, .error (.runtimeError "out of fuel"))
  | fuel + 1, store =>
    match store.load with
    | .error error => (store, .error error)
    | .ok state =>
      match nextBoundary state asOf with
      | none => store.transact (.skipDowntime asOf)
      | some _ =>
        match store.transact (.lifecycleBoundary asOf) with
        | (store', .error error) => (store', .error error)
        | (store', .ok ()) => resumeFrom asOf fuel store'

/-- The rounds of the loop that a downtime from `since` to `asOf` can take. -/
def resumeRounds (since asOf : ℤ) : ℕ :=
  (asOf - since + 1).toNat + 1

/-- `_resume`; the reconciler does nothing. -/
def TeamStore.resume (store : TeamStore p) (asOf : ℤ) : TeamStore p × Result Unit :=
  match store.load with
  | .error error => (store, .error error)
  | .ok initial =>
    if asOf ≤ cursor initial then (store, .ok ())
    else
      match store.transact (.downtimeEvidence asOf) with
      | (store', .error error) => (store', .error error)
      | (store', .ok ()) => store'.resumeFrom asOf (resumeRounds (cursor initial) asOf)

end JiraSimulator
