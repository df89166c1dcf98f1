import JiraSimulator.Domain.LiveSlice

/-!
# The command of one authoritative slice

A command joins a live slice, a write set, and the claims on semantic counters and natural decisions
that own the rows it allocates.  Its validation binds the claims to the allocated rows.
-/

namespace JiraSimulator

structure SemanticCounterClaim where
  scope : SemanticCounterScope
  expectedNext : ℕ
  count : ℕ
  deriving DecidableEq, Repr

def SemanticCounterClaim.validate (claim : SemanticCounterClaim) : Result Unit := do
  require (claim.expectedNext ≤ maxSafeInteger) "expected_next must be in the safe integer domain"
  require (claim.count ≤ maxSafeInteger) "count must be in the safe integer domain"
  require (claim.count ≠ 0) "count must be positive"
  require (claim.expectedNext + claim.count - 1 ≤ maxSafeInteger)
    "claimed ordinal range exceeds the safe integer domain"

/-- `SemanticCounterClaim(scope, expected_next, 1)` with its validation. -/
def SemanticCounterClaim.one (scope : SemanticCounterScope) (expectedNext : ℕ) :
    Result SemanticCounterClaim :=
  validated SemanticCounterClaim.validate { scope, expectedNext, count := 1 }

structure EligibleNaturalDecisionClaim where
  decision : DecisionOccurrence
  businessDate : ℤ
  deriving DecidableEq, Repr

def EligibleNaturalDecisionClaim.validate (claim : EligibleNaturalDecisionClaim) :
    Result Unit := do
  require (claim.decision.occurrence ≤ maxSafeInteger)
    "decision occurrence must be in the safe integer domain"
  require (claim.decision.decisionType ∈ naturalOwnerDecisions)
    "decision type is not a supported natural decision"

/-- The eligibility key of a natural claim. -/
def EligibleNaturalDecisionClaim.key (claim : EligibleNaturalDecisionClaim) :
    DecisionType × Uuid × ℤ :=
  (claim.decision.decisionType, claim.decision.entityId, claim.businessDate)

/-- `_natural_scope`. -/
def EligibleNaturalDecisionClaim.scope (claim : EligibleNaturalDecisionClaim) :
    SemanticCounterScope :=
  .naturalDecision claim.decision.entityId claim.decision.decisionType

/-- Is the scope one of a natural decision? -/
def SemanticCounterScope.isNatural : SemanticCounterScope → Bool
  | .naturalDecision _ _ => true
  | _ => false

variable {p : Platform}

structure AuthoritativeTickSliceCommit (p : Platform) where
  liveSlice : TickSliceCommit
  state : ScrumStateWriteSet p
  counterClaims : List SemanticCounterClaim
  naturalDecisionClaims : List EligibleNaturalDecisionClaim

/-- `_coordinates_for_scope`. -/
def coordinatesForScope (state : ScrumCollections) : SemanticCounterScope → List ℕ
  | .sprintOrdinal team => (state.sprints.filter fun item => item.teamId = team).map (·.ordinal)
  | .itemSequence team kind =>
    (state.workItems.filter fun item => item.teamId = team ∧ item.creationKind = kind).map
      (·.creationSequence)
  | .visitOrdinal work =>
    (state.statusVisits.filter fun item => item.workItemId = work).map (·.ordinal)
  | .naturalDecision _ _ => []

/-- The rows of a scope in a claimed range, with the identities that they must have. -/
def allocatedIds (state : ScrumCollections) (claim : SemanticCounterClaim) :
    List (Uuid × Uuid) :=
  let inRange (value : ℕ) : Bool :=
    claim.expectedNext ≤ value && value < claim.expectedNext + claim.count
  match claim.scope with
  | .sprintOrdinal team =>
    (state.sprints.filter fun item => item.teamId = team && inRange item.ordinal).map fun item =>
      (item.id, .sprint item.teamId item.ordinal)
  | .itemSequence team kind =>
    (state.workItems.filter fun item =>
      item.teamId = team && item.creationKind = kind && inRange item.creationSequence).map
      fun item => (item.id, .item item.teamId item.creationKind item.creationSequence)
  | .visitOrdinal work =>
    (state.statusVisits.filter fun item => item.workItemId = work && inRange item.ordinal).map
      fun item => (item.id, .visit item.workItemId item.ordinal)
  | .naturalDecision _ _ => []

/-- `_validate_allocation_ranges` for one claim. -/
def validateAllocationRange (state : ScrumCollections) (claim : SemanticCounterClaim) :
    Result Unit :=
  if claim.scope.isNatural then return ()
  else do
    let covered := ((coordinatesForScope state claim.scope).filter fun value =>
      claim.expectedNext ≤ value ∧ value < claim.expectedNext + claim.count).insertionSort (· ≤ ·)
    require (covered = List.range' claim.expectedNext claim.count)
      "allocated coordinates must equal one contiguous claimed range"
    require (∀ pair ∈ allocatedIds state claim, pair.1 = pair.2)
      "allocated row has the wrong semantic identity"

/-- `_validate_natural_bindings` for one eligible decision. -/
def validateNaturalBinding (claims : List SemanticCounterClaim)
    (eligible : EligibleNaturalDecisionClaim) : Result Unit :=
  match claims.find? (fun claim => claim.scope = eligible.scope) with
  | none => .error (.valueError "eligible decision requires one matching natural counter claim")
  | some claim => do
    require (claim.count = 1) "natural counter claim count must be exactly one"
    require (eligible.decision.occurrence = claim.expectedNext)
      "natural decision occurrence must equal counter expected_next"

/-- `_validate_visible_natural_owners` for one eligible decision. -/
def validateVisibleNaturalOwner (state : ScrumCollections)
    (eligible : EligibleNaturalDecisionClaim) : Result Unit :=
  let wrongIds :=
    if eligible.decision.decisionType = .RISK_CANCELLATION_OUTCOME then
      state.memberIdentities.map (·.id)
    else state.workItems.map (·.id)
  require (eligible.decision.entityId ∉ wrongIds)
    "natural decision is visibly bound to the wrong owner kind"

def validateClaimBindings (state : ScrumCollections) (claims : List SemanticCounterClaim)
    (natural : List EligibleNaturalDecisionClaim) : Result Unit := do
  require (state.semanticCounters = [] ∧ state.naturalDecisionEvaluations = [])
    "counter and evaluation rows are owned by claims"
  require (claims.map (·.scope)).Nodup "counter claims must use unique semantic scopes"
  require (natural.map (·.key)).Nodup "natural decision claims must use unique eligibility keys"
  require (natural.map (·.scope)).Nodup "natural counter scopes must be unique per command"
  forM natural (validateNaturalBinding claims)
  forM natural (validateVisibleNaturalOwner state)
  require ((∀ claim ∈ claims, claim.scope.isNatural → claim.scope ∈ natural.map (·.scope)) ∧
      ∀ eligible ∈ natural, eligible.scope ∈ claims.map (·.scope))
    "missing, extra, or unrelated natural counter claim"
  forM claims (validateAllocationRange state)

def validateCoordinates (state : ScrumCollections) (teamId runId : Uuid) : Result Unit := do
  require (∀ team ∈ state.teamIds, team = teamId)
    "Scrum state rows must match the live-slice team/run"
  require (∀ run ∈ state.runIds, run = runId)
    "Scrum state rows must match the live-slice team/run"

def AuthoritativeTickSliceCommit.validate (commit : AuthoritativeTickSliceCommit p) :
    Result Unit := do
  commit.liveSlice.validate
  forM commit.counterClaims SemanticCounterClaim.validate
  forM commit.naturalDecisionClaims EligibleNaturalDecisionClaim.validate
  validateCoordinates commit.state.toScrumCollections commit.liveSlice.teamId
    commit.liveSlice.runId
  validateClaimBindings commit.state.toScrumCollections commit.counterClaims
    commit.naturalDecisionClaims

/-- `AuthoritativeTickSliceCommit(...)` with its validation. -/
def AuthoritativeTickSliceCommit.create (liveSlice : TickSliceCommit)
    (state : ScrumStateWriteSet p) (counterClaims : List SemanticCounterClaim)
    (naturalDecisionClaims : List EligibleNaturalDecisionClaim) :
    Result (AuthoritativeTickSliceCommit p) :=
  validated AuthoritativeTickSliceCommit.validate
    { liveSlice, state, counterClaims, naturalDecisionClaims }

end JiraSimulator
