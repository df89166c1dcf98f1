import JiraSimulator.Library.Session
import JiraSimulator.Persistence.LiveTeamStore

/-!
# Attempts to commit

Callers submit commands of any content at any time: fresh ones, stale ones, and ones that were
committed before.  The statements of `_commit_authoritative_in_session` write one after another to
the rows of a session, which is rolled back on every error.
-/

namespace JiraSimulator

open Library Library.Outcome Library.Transition

variable {p : Platform}

/-! ### The session of a commit -/

/-- The rows that a session works on, with its `NEW_ALLOCATION_SCOPES_KEY`. -/
structure CommitSession (p : Platform) where
  store : TeamStore p
  runtime : TeamRuntime
  rows : ScrumCollections
  newScopes : List SemanticCounterScope

def CommitSession.opening (store : TeamStore p) : CommitSession p where
  store := store
  runtime := store.aggregate.runtime
  rows := store.scrum.toScrumCollections
  newScopes := []

/-- The store of the written rows. -/
def CommitSession.closing (session : CommitSession p) : TeamStore p :=
  { session.store with aggregate := { session.store.aggregate with runtime := session.runtime } }

/-- The statements of `_commit_authoritative_in_session`, in order. -/
def commitStatements (command : AuthoritativeTickSliceCommit p) :
    List (CommitSession p → Result (CommitSession p)) :=
  let slice := command.liveSlice
  [ fun session => do
      command.validate
      return session,
    fun session => do
      let runtime ← advanceRuntime session.runtime slice
      return { session with runtime },
    fun session => do
      preflightReplay session.store command
      return session,
    fun session => do
      let rows ← applyAfterImages session.store.aggregate.blueprint session.store.scrum command
      let newScopes := (newAllocations session.rows command.state.toScrumCollections).map (·.1)
      return { session with rows, newScopes },
    fun session => do
      let counters ← applyCounterClaims session.rows.naturalDecisionEvaluations command
        session.newScopes session.rows.semanticCounters
      return { session with rows := { session.rows with semanticCounters := counters } },
    fun session => do
      let evaluations ← resolveNaturalClaims command session.rows.naturalDecisionEvaluations
      return { session with
        rows := { session.rows with naturalDecisionEvaluations := evaluations } },
    fun session => do
      let scrum ← loadSnapshot session.store.aggregate.blueprint session.rows
      return { session with store := { session.store with scrum } },
    fun session => do
      let activity ← appendDrafts (·.semanticKey) session.store.activity slice.activity
      return { session with store := { session.store with activity } },
    fun session => do
      let groundTruth ← appendDrafts (·.semanticKey) session.store.groundTruth slice.groundTruth
      return { session with store := { session.store with groundTruth } },
    fun session => do
      let projection ← appendDrafts (·.semanticKey) session.store.projection
        slice.projectionIntents
      return { session with store := { session.store with projection } },
    fun session => do
      validateCommittedRuntime session.runtime
      return session ]

/-- The store after the transaction of a command, and the error that rolled it back. -/
def commitTransaction (store : TeamStore p) (command : AuthoritativeTickSliceCommit p) :
    TeamStore p × Option PyError :=
  Session.transact CommitSession.opening CommitSession.closing (commitStatements command) store

/-- The store after an attempt to commit a command. -/
def TeamStore.attempt (store : TeamStore p) (command : AuthoritativeTickSliceCommit p) :
    TeamStore p :=
  (commitTransaction store command).1

/-! ### Runs of attempts -/

/-- The runs of the attempts on one team, from its bootstrap on. -/
def attemptRuns (p : Platform) : System TeamStart (TeamStore p) (AuthoritativeTickSliceCommit p) where
  start team store := ensureBootstrapped (createdStore p team) team.startedAt = .ok store
  step store command store' := store' = store.attempt command

end JiraSimulator
