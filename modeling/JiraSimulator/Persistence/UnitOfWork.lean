import JiraSimulator.Application.JiraProvisioning
import JiraSimulator.Application.LiveScheduler
import JiraSimulator.Domain.TickSlice
import JiraSimulator.Persistence.ScrumStateMapper

/-!
# The store of one team run

A store holds the persisted aggregate, the Scrum rows and the three ledgers of one team run.  A
commit is atomic: it returns the next store, or fails and leaves the store as it was.  Rows are
replaced by identity, counters advance through their claims, and a ledger keeps one row for each
semantic key.
-/

namespace JiraSimulator

open Library Library.Outcome

variable {p : Platform}

structure TeamStore (p : Platform) where
  aggregate : PersistedTeamAggregate
  scrum : ScrumStateSnapshot p
  activity : List ActivityEventDraft
  groundTruth : List GroundTruthRecordDraft
  projection : List ProjectionIntentDraft

/-- `load`: the coherent state of the team. -/
def TeamStore.load (store : TeamStore p) : Result (LiveTeamState p) := do
  let scrum ← loadSnapshot store.aggregate.blueprint store.scrum.toScrumCollections
  return { aggregate := store.aggregate, scrum }

/-! ### Counters and natural decisions -/

/-- `_claim_is_advanced`. -/
def claimIsAdvanced (counters : List SemanticCounter) (claim : SemanticCounterClaim) : Bool :=
  match Keyed.lookup (·.scope) counters claim.scope with
  | some counter => claim.expectedNext + claim.count ≤ counter.nextValue
  | none => false

/-- The evaluation of a natural decision on the date of the claim. -/
def eligibilityRow (evaluations : List NaturalDecisionEvaluation)
    (claim : EligibleNaturalDecisionClaim) : Option NaturalDecisionEvaluation :=
  evaluations.find? fun row =>
    row.decisionType = claim.decision.decisionType &&
      row.semanticEntityId = claim.decision.entityId && row.businessDate = claim.businessDate

/-- The evaluation of a natural decision with the occurrence of the claim. -/
def occurrenceRow (evaluations : List NaturalDecisionEvaluation)
    (claim : EligibleNaturalDecisionClaim) : Option NaturalDecisionEvaluation :=
  evaluations.find? fun row =>
    row.decisionType = claim.decision.decisionType &&
      row.semanticEntityId = claim.decision.entityId &&
      row.occurrence = claim.decision.occurrence

/-- `_preflight_natural_claims` for one claim. -/
def preflightNaturalClaim (evaluations : List NaturalDecisionEvaluation)
    (claim : EligibleNaturalDecisionClaim) : Result Unit := do
  forM (eligibilityRow evaluations claim).toList fun row =>
    check (row.occurrence = claim.decision.occurrence)
      (.naturalClaimConflict "eligibility already has a different occurrence")
  forM (occurrenceRow evaluations claim).toList fun row =>
    check (row.businessDate = claim.businessDate)
      (.naturalClaimConflict "occurrence is already assigned to another business date")

/-- `_natural_replay`: the natural decision of the claim was already evaluated on its date. -/
def naturalReplay (evaluations : List NaturalDecisionEvaluation)
    (natural : List EligibleNaturalDecisionClaim) (claim : SemanticCounterClaim) : Result Bool :=
  if claim.scope.isNatural then do
    let eligible ← next (fun item => item.scope = claim.scope) natural
    return (eligibilityRow evaluations eligible).isSome
  else .ok false

/-- `_require_advanced_counter`. -/
def requireAdvancedCounter (counters : List SemanticCounter) (claim : SemanticCounterClaim)
    (newlyInserted : Bool) : Result Unit :=
  check (newlyInserted = false ∧ claimIsAdvanced counters claim = true)
    (.counterClaimStale "semantic counter does not match the claimed range")

/-- `_apply_counter_claim`: the counters after one claim. -/
def applyCounterClaim (evaluations : List NaturalDecisionEvaluation)
    (natural : List EligibleNaturalDecisionClaim) (newScopes : List SemanticCounterScope)
    (counters : List SemanticCounter) (claim : SemanticCounterClaim) :
    Result (List SemanticCounter) := do
  if ← naturalReplay evaluations natural claim then
    requireAdvancedCounter counters claim false
    return counters
  else
    match Keyed.lookup (·.scope) counters claim.scope with
    | none => .error (.counterClaimStale "semantic counter row is missing")
    | some counter =>
      if counter.nextValue = claim.expectedNext then
        return Keyed.assign (·.scope) counters
          { counter with nextValue := claim.expectedNext + claim.count }
      else if claim.scope.isNatural then
        .error (.counterClaimStale "semantic counter compare-and-swap updated zero rows")
      else do
        requireAdvancedCounter counters claim (claim.scope ∈ newScopes)
        return counters

/-- `apply_counter_claims`, in the order of the scopes. -/
def applyCounterClaims (evaluations : List NaturalDecisionEvaluation)
    (commit : AuthoritativeTickSliceCommit p) (newScopes : List SemanticCounterScope)
    (counters : List SemanticCounter) : Result (List SemanticCounter) := do
  forM commit.naturalDecisionClaims (preflightNaturalClaim evaluations)
  let ordered := Ordering.sortOn (fun claim => claim.scope.order p) commit.counterClaims
  ordered.foldlM
    (applyCounterClaim evaluations commit.naturalDecisionClaims newScopes) counters

/-- `_evaluation_from_claim`. -/
def evaluationFromClaim (slice : TickSliceCommit) (claim : EligibleNaturalDecisionClaim) :
    NaturalDecisionEvaluation where
  id := .evaluation slice.teamId slice.runId claim.decision.decisionType claim.decision.entityId
    claim.businessDate
  teamId := slice.teamId
  runId := slice.runId
  decisionType := claim.decision.decisionType
  semanticEntityId := claim.decision.entityId
  businessDate := claim.businessDate
  occurrence := claim.decision.occurrence
  commitId := slice.commitId
  recordedAt := slice.recordedAt

/-- `_resolve_natural_claim`: the evaluations after one claim. -/
def resolveNaturalClaim (slice : TickSliceCommit) (evaluations : List NaturalDecisionEvaluation)
    (claim : EligibleNaturalDecisionClaim) : Result (List NaturalDecisionEvaluation) :=
  match eligibilityRow evaluations claim with
  | some row => do
    check (row.occurrence = claim.decision.occurrence)
      (.naturalClaimConflict "eligibility has conflicting immutable content")
    return evaluations
  | none =>
    if (occurrenceRow evaluations claim).isSome then
      .error (.naturalClaimConflict "occurrence is already assigned to another eligibility")
    else do
      let row ← validated NaturalDecisionEvaluation.validate (evaluationFromClaim slice claim)
      return evaluations ++ [row]

/-- `resolve_natural_claims`, in the order of the decisions. -/
def resolveNaturalClaims (commit : AuthoritativeTickSliceCommit p)
    (evaluations : List NaturalDecisionEvaluation) : Result (List NaturalDecisionEvaluation) :=
  let ordered := Ordering.sortOn
    (fun claim => [claim.decision.decisionType.order, (p.uuidInt claim.decision.entityId : ℤ),
      claim.businessDate]) commit.naturalDecisionClaims
  ordered.foldlM (resolveNaturalClaim commit.liveSlice) evaluations

/-! ### After-images -/

/-- `_require_immutable_fields` for the rows that already exist. -/
def requireImmutable {α κ β : Type} [DecidableEq κ] [DecidableEq β] (key : α → κ) (fields : α → β)
    (rows changes : List α) : Result Unit :=
  forM changes fun item =>
    forM (Keyed.lookup key rows (key item)).toList fun old =>
      check (fields old = fields item)
        (.scrumStateConflict "immutable Scrum fields have different content")

/-- The changes whose identity is new. -/
def newRows {α κ : Type} [DecidableEq κ] (key : α → κ) (rows changes : List α) : List α :=
  changes.filter fun item => key item ∉ rows.map key

def requireImmutableRows (rows changes : ScrumCollections) : Result Unit := do
  check (newRows (·.id) rows.memberIdentities changes.memberIdentities = [])
    (.scrumStateConflict "Task 6 cannot recreate a missing member identity")
  requireImmutable (·.id) id rows.memberIdentities changes.memberIdentities
  requireImmutable (·.id) (fun row => (row.teamId, row.runId, row.memberId))
    rows.memberAvailabilityOverlays changes.memberAvailabilityOverlays
  requireImmutable (·.key) (fun row => (row.teamId, row.runId))
    rows.memberBusinessDateConsumption changes.memberBusinessDateConsumption
  requireImmutable (·.id)
    (fun row => (row.teamId, row.runId, row.creationKind, row.creationSequence, row.createdAt))
    rows.workItems changes.workItems
  requireImmutable (·.id) id rows.workItemFactors changes.workItemFactors
  requireImmutable (·.id)
    (fun row => ((row.teamId, row.runId, row.ordinal),
      (row.plannedStartAt, row.plannedEndAt, row.createdAt)))
    rows.sprints changes.sprints
  requireImmutable (·.id)
    (fun row => (row.teamId, row.runId, row.sprintId, row.workItemId, row.addedAt))
    rows.sprintScope changes.sprintScope
  requireImmutable (·.id)
    (fun row => ((row.teamId, row.runId, row.workItemId, row.ordinal),
      (row.statusKey, row.activityKey, row.enteredAt)))
    rows.statusVisits changes.statusVisits
  requireImmutable (·.visitId) id rows.statusVisitSamples changes.statusVisitSamples

/-- The scopes and coordinates of the rows that a write set allocates. -/
def newAllocations (rows changes : ScrumCollections) : List (SemanticCounterScope × ℕ) :=
  (newRows (·.id) rows.workItems changes.workItems).map (fun row =>
      (.itemSequence row.teamId row.creationKind, row.creationSequence)) ++
    (newRows (·.id) rows.sprints changes.sprints).map (fun row =>
      (.sprintOrdinal row.teamId, row.ordinal)) ++
    (newRows (·.id) rows.statusVisits changes.statusVisits).map fun row =>
      (.visitOrdinal row.workItemId, row.ordinal)

/-- `_require_allocation_claim`. -/
def requireAllocationClaim (claims : List SemanticCounterClaim)
    (allocation : SemanticCounterScope × ℕ) : Result Unit :=
  let failure : PyError := .counterClaimStale "new allocated Scrum row has no matching counter claim"
  match claims.find? (fun claim => claim.scope = allocation.1) with
  | none => .error failure
  | some claim =>
    check (claim.expectedNext ≤ allocation.2 ∧ allocation.2 < claim.expectedNext + claim.count)
      failure

/-- `_seed_owner_counters`: the counters of the new work items. -/
def ownerCounters (slice : TickSliceCommit) (workItems : List WorkItemState) :
    List SemanticCounter :=
  workItems.flatMap fun work =>
    [{ teamId := slice.teamId, runId := slice.runId, scope := .visitOrdinal work.id,
       nextValue := 0 },
     { teamId := slice.teamId, runId := slice.runId,
       scope := .naturalDecision work.id .RISK_CANCELLATION_OUTCOME, nextValue := 0 }]

/-- `apply_after_images`: the rows with those of the write set, when it has any. -/
def applyAfterImages (blueprint : ResolvedTeamBlueprint) (current : ScrumStateSnapshot p)
    (commit : AuthoritativeTickSliceCommit p) : Result ScrumCollections := do
  let changes := commit.state.toScrumCollections
  if changes = {} then return current.toScrumCollections
  else
    let candidate ← candidateSnapshot blueprint current commit.state
    requireImmutableRows current.toScrumCollections changes
    forM (newAllocations current.toScrumCollections changes)
      (requireAllocationClaim commit.counterClaims)
    -- a new item gets its counters with the commit that creates it
    let seeded := ownerCounters commit.liveSlice
      (newRows (·.id) current.workItems changes.workItems)
    return { candidate.toScrumCollections with
      semanticCounters := candidate.semanticCounters ++ seeded }

/-! ### Ledgers -/

/-- `_resolve_activity` and its siblings: a known semantic key must have the same content. -/
def appendDraft {α : Type} [DecidableEq α] (key : α → SemanticKey) (ledger : List α) (draft : α) :
    Result (List α) :=
  match Keyed.lookup key ledger (key draft) with
  | none => .ok (ledger ++ [draft])
  | some record =>
    if record = draft then .ok ledger else .error .semanticDeduplicationConflict

def appendDrafts {α : Type} [DecidableEq α] (key : α → SemanticKey) (ledger drafts : List α) :
    Result (List α) :=
  drafts.foldlM (appendDraft key) ledger

/-! ### Replays -/

/-- Every row of the write set is already persisted with the same content. -/
def requireReplayedAfterImages (rows changes : ScrumCollections) : Result Unit :=
  check (changes.memberIdentities ⊆ rows.memberIdentities ∧
      changes.memberAvailabilityOverlays ⊆ rows.memberAvailabilityOverlays ∧
      changes.memberBusinessDateConsumption ⊆ rows.memberBusinessDateConsumption ∧
      changes.workItems ⊆ rows.workItems ∧ changes.workItemFactors ⊆ rows.workItemFactors ∧
      changes.sprints ⊆ rows.sprints ∧ changes.sprintScope ⊆ rows.sprintScope ∧
      changes.statusVisits ⊆ rows.statusVisits ∧
      changes.statusVisitSamples ⊆ rows.statusVisitSamples)
    (.scrumStateConflict "advanced replay changed a persisted after-image")

/-- `preflight_replay` with `_require_replayed_ledgers`: a command whose allocations were already
made must be a replay in every part. -/
def preflightReplay (store : TeamStore p) (commit : AuthoritativeTickSliceCommit p) :
    Result Unit := do
  let claims := commit.counterClaims.filter fun claim => !claim.scope.isNatural
  let counters := store.scrum.semanticCounters
  if claims.any (claimIsAdvanced counters) then
    check (claims.all (claimIsAdvanced counters))
      (.counterClaimStale "advanced replay cannot mix a current allocation claim")
    requireReplayedAfterImages store.scrum.toScrumCollections commit.state.toScrumCollections
    forM commit.naturalDecisionClaims fun claim =>
      check ((eligibilityRow store.scrum.naturalDecisionEvaluations claim).isSome ∧
          (occurrenceRow store.scrum.naturalDecisionEvaluations claim).isSome)
        (.counterClaimStale "advanced replay cannot consume a natural occurrence")
    check (commit.liveSlice.activity ⊆ store.activity ∧
        commit.liveSlice.groundTruth ⊆ store.groundTruth ∧
        commit.liveSlice.projectionIntents ⊆ store.projection)
      (.counterClaimStale "advanced replay has fresh ledger semantic keys")
  else
    return ()

/-! ### Commits -/

/-- `_advance_runtime`: the compare-and-swap of the runtime version. -/
def advanceRuntime (runtime : TeamRuntime) (slice : TickSliceCommit) : Result TeamRuntime :=
  if runtime.teamId = slice.teamId ∧ runtime.runId = slice.runId ∧
      runtime.version = slice.expectedRuntimeVersion then
    .ok { runtime with
      version := slice.expectedRuntimeVersion + 1
      state := slice.runtimeAfter.state
      simulationTime := slice.runtimeAfter.simulationTime
      nextWakeAt := slice.runtimeAfter.nextWakeAt
      updatedAt := slice.recordedAt }
  else .error (.staleRuntimeVersion "runtime compare-and-swap updated zero rows")

/-- `_validate_runtime` of the committed slice. -/
def validateCommittedRuntime (runtime : TeamRuntime) : Result Unit := do
  requireText runtime.state "runtime state"
  require (runtime.id = .runtime runtime.teamId)
    "runtime id must match its semantic team coordinate"
  require (runtime.createdAt ≤ runtime.updatedAt) "runtime updated_at must not precede created_at"

/-- The rows after a commit: the after-images, the claimed counters and the evaluations. -/
def commitRows (blueprint : ResolvedTeamBlueprint) (current : ScrumStateSnapshot p)
    (commit : AuthoritativeTickSliceCommit p) : Result ScrumCollections := do
  let rows ← applyAfterImages blueprint current commit
  let newScopes := (newAllocations current.toScrumCollections
    commit.state.toScrumCollections).map (·.1)
  let counters ← applyCounterClaims rows.naturalDecisionEvaluations commit newScopes
    rows.semanticCounters
  let evaluations ← resolveNaturalClaims commit rows.naturalDecisionEvaluations
  return { rows with semanticCounters := counters, naturalDecisionEvaluations := evaluations }

/-- `commit_authoritative_slice`. -/
def commitAuthoritativeSlice (store : TeamStore p) (commit : AuthoritativeTickSliceCommit p) :
    Result (TeamStore p) := do
  commit.validate
  let slice := commit.liveSlice
  let blueprint := store.aggregate.blueprint
  let runtime ← advanceRuntime store.aggregate.runtime slice
  preflightReplay store commit
  let rows ← commitRows blueprint store.scrum commit
  -- the rows are read back, with all the checks of a load
  let scrum ← loadSnapshot blueprint rows
  let activity ← appendDrafts (·.semanticKey) store.activity slice.activity
  let groundTruth ← appendDrafts (·.semanticKey) store.groundTruth slice.groundTruth
  let projection ← appendDrafts (·.semanticKey) store.projection slice.projectionIntents
  validateCommittedRuntime runtime
  return { aggregate := { store.aggregate with runtime }, scrum, activity, groundTruth, projection }

end JiraSimulator
