import JiraSimulator.Domain.ScrumState
import JiraSimulator.Library.Keyed

/-!
# The authoritative Scrum state

`ScrumCollections` holds the eleven collections of one team run.  A write set is a value of them
that passed the checks every partial state must pass; a snapshot passed the checks of a complete
state. Both carry the proof, so an invalid state cannot be built.  `validateAgainst` checks a state
against the blueprint of its team.
-/

namespace JiraSimulator

open Library

/-- The collections of a Scrum state, in the order of `_collection_values`. -/
@[ext] structure ScrumCollections where
  memberIdentities : List MemberIdentity := []
  memberAvailabilityOverlays : List MemberAvailabilityOverlay := []
  memberBusinessDateConsumption : List MemberBusinessDateConsumption := []
  workItems : List WorkItemState := []
  workItemFactors : List WorkItemFactor := []
  sprints : List SprintState := []
  sprintScope : List SprintScopeEntry := []
  statusVisits : List StatusVisitState := []
  statusVisitSamples : List StatusVisitSample := []
  semanticCounters : List SemanticCounter := []
  naturalDecisionEvaluations : List NaturalDecisionEvaluation := []
  deriving DecidableEq

/-- The identity of a consumption row within its team run. -/
def MemberBusinessDateConsumption.key (row : MemberBusinessDateConsumption) : Uuid × ℤ :=
  (row.memberId, row.businessDate)

namespace ScrumCollections

variable (c : ScrumCollections)

/-! ### Checks of every state -/

def validateRecords (p : Platform) : Result Unit := do
  forM c.memberIdentities MemberIdentity.validate
  forM c.memberAvailabilityOverlays MemberAvailabilityOverlay.validate
  forM c.memberBusinessDateConsumption MemberBusinessDateConsumption.validate
  forM c.workItems WorkItemState.validate
  forM c.workItemFactors WorkItemFactor.validate
  forM c.sprints SprintState.validate
  forM c.sprintScope SprintScopeEntry.validate
  forM c.statusVisits StatusVisitState.validate
  forM c.statusVisitSamples (StatusVisitSample.validate p)
  forM c.semanticCounters SemanticCounter.validate
  forM c.naturalDecisionEvaluations NaturalDecisionEvaluation.validate

/-- Identities that must be unique within a collection. -/
def requireUnique {α : Type} [DecidableEq α] (identities : List α) : Result Unit :=
  require identities.Nodup "Scrum state collections must not contain duplicate identities"

def validateCollectionUniqueness : Result Unit := do
  requireUnique (c.memberIdentities.map (·.id))
  requireUnique (c.memberAvailabilityOverlays.map (·.id))
  requireUnique (c.memberBusinessDateConsumption.map fun row =>
    (row.teamId, row.runId, row.memberId, row.businessDate))
  requireUnique (c.workItems.map (·.id))
  requireUnique (c.workItemFactors.map (·.id))
  requireUnique (c.sprints.map (·.id))
  requireUnique (c.sprintScope.map (·.id))
  requireUnique (c.statusVisits.map (·.id))
  requireUnique (c.statusVisitSamples.map (·.visitId))
  requireUnique (c.semanticCounters.map fun counter =>
    (counter.teamId, counter.runId, counter.scope))
  requireUnique (c.naturalDecisionEvaluations.map (·.id))

/-- Coordinates of which a state has at most one row each. -/
def requireUniqueCoordinates {α : Type} [DecidableEq α] (coordinates : List α) (label : String) :
    Result Unit :=
  require coordinates.Nodup ("Scrum state must contain at most one " ++ label)

def activeSprints : List SprintState :=
  c.sprints.filter fun sprint => sprint.lifecycle = .ACTIVE

def currentScope : List SprintScopeEntry :=
  c.sprintScope.filter fun entry => entry.removedAt.isNone

def openVisits : List StatusVisitState :=
  c.statusVisits.filter fun visit => visit.lifecycle = .OPEN

def validatePartialUniqueness : Result Unit := do
  requireUniqueCoordinates (c.activeSprints.map fun sprint => (sprint.teamId, sprint.runId))
    "active sprint"
  requireUniqueCoordinates
    (c.currentScope.map fun entry => (entry.teamId, entry.runId, entry.workItemId))
    "current sprint scope"
  requireUniqueCoordinates
    (c.openVisits.map fun visit => (visit.teamId, visit.runId, visit.workItemId))
    "open status visit"
  requireUniqueCoordinates
    (c.naturalDecisionEvaluations.map fun evaluation =>
      (evaluation.teamId, evaluation.runId, evaluation.decisionType, evaluation.semanticEntityId,
        evaluation.occurrence))
    "natural evaluation occurrence"

/-- The `run_id` of every row that has one. -/
def runIds : List Uuid :=
  c.memberAvailabilityOverlays.map (·.runId) ++ c.memberBusinessDateConsumption.map (·.runId) ++
    c.workItems.map (·.runId) ++ c.workItemFactors.map (·.runId) ++ c.sprints.map (·.runId) ++
    c.sprintScope.map (·.runId) ++ c.statusVisits.map (·.runId) ++
    c.statusVisitSamples.map (·.runId) ++ c.semanticCounters.map (·.runId) ++
    c.naturalDecisionEvaluations.map (·.runId)

/-- The `team_id` of every row. -/
def teamIds : List Uuid :=
  c.memberIdentities.map (·.teamId) ++ c.memberAvailabilityOverlays.map (·.teamId) ++
    c.memberBusinessDateConsumption.map (·.teamId) ++ c.workItems.map (·.teamId) ++
    c.workItemFactors.map (·.teamId) ++ c.sprints.map (·.teamId) ++ c.sprintScope.map (·.teamId) ++
    c.statusVisits.map (·.teamId) ++ c.statusVisitSamples.map (·.teamId) ++
    c.semanticCounters.map (·.teamId) ++ c.naturalDecisionEvaluations.map (·.teamId)

/-- All values of a list are equal. -/
def allEqual (ids : List Uuid) : Bool :=
  match ids with
  | [] => true
  | id :: rest => rest.all (· = id)

def validateOneTeamRun : Result Unit :=
  require (allEqual c.teamIds ∧ allEqual c.runIds) "Scrum state collections must use one team/run"

def validateOpenVisitStatus : Result Unit :=
  forM c.statusVisits fun visit =>
    match Keyed.lookup (·.id) c.workItems visit.workItemId with
    | none => return ()
    | some work =>
      require (visit.lifecycle = .OPEN → visit.statusKey = work.currentStatusKey)
        "open visit status must match current work status"

def validateSampleLinks : Result Unit :=
  forM c.statusVisitSamples fun sample =>
    match Keyed.lookup (·.id) c.statusVisits sample.visitId with
    | none => return ()
    | some visit => do
      require (sample.teamId = visit.teamId ∧ sample.runId = visit.runId)
        "status sample team/run must match its visit"
      require (sample.requiredWorkMicroseconds = visit.requiredWorkMicroseconds)
        "status sample must match visit required work"

/-- The checks of a write set. -/
def validate (p : Platform) : Result Unit := do
  c.validateRecords p
  c.validateCollectionUniqueness
  c.validatePartialUniqueness
  c.validateOneTeamRun
  c.validateOpenVisitStatus
  c.validateSampleLinks

/-! ### Checks of a complete state -/

def requireReference (identifier : Uuid) (owners : List Uuid) (label : String) : Result Unit :=
  require (identifier ∈ owners) (label ++ " must reference a state owner")

def validateMemberReferences : Result Unit := do
  let members := c.memberIdentities.map (·.id)
  forM c.memberAvailabilityOverlays fun overlay =>
    requireReference overlay.memberId members "member child"
  forM c.memberBusinessDateConsumption fun row =>
    requireReference row.memberId members "member child"
  forM c.statusVisits fun visit =>
    forM visit.memberId.toList fun member => requireReference member members "visit member"

def validateWorkReferences : Result Unit := do
  let workItems := c.workItems.map (·.id)
  let sprints := c.sprints.map (·.id)
  let visits := c.statusVisits.map (·.id)
  forM c.workItemFactors fun factor =>
    requireReference factor.workItemId workItems "factor work item"
  forM c.sprintScope fun scope => do
    requireReference scope.workItemId workItems "scope work item"
    requireReference scope.sprintId sprints "scope sprint"
  forM c.statusVisits fun visit => requireReference visit.workItemId workItems "visit work item"
  forM c.statusVisitSamples fun sample => requireReference sample.visitId visits "sample visit"

/-- `_validate_natural_owner`. -/
def validateNaturalOwner (decision : DecisionType) (owner : Uuid) : Result Unit :=
  let owners :=
    if decision = .RISK_MEMBER_UNAVAILABLE_OUTCOME then c.memberIdentities.map (·.id)
    else c.workItems.map (·.id)
  require (decision ∈ naturalOwnerDecisions ∧ owner ∈ owners)
    "natural decision must reference its supported state owner"

def validateCounterReferences : Result Unit := do
  forM c.semanticCounters fun counter =>
    match counter.scope with
    | .visitOrdinal item =>
      require (item ∈ c.workItems.map (·.id)) "visit ordinal counter must reference a work item"
    | .naturalDecision entity decision => c.validateNaturalOwner decision entity
    | _ => return ()
  forM c.naturalDecisionEvaluations fun evaluation =>
    c.validateNaturalOwner evaluation.decisionType evaluation.semanticEntityId

def validateSampleCardinality : Result Unit :=
  require ((∀ visit ∈ c.statusVisits, visit.id ∈ c.statusVisitSamples.map (·.visitId)) ∧
      ∀ sample ∈ c.statusVisitSamples, sample.visitId ∈ c.statusVisits.map (·.id))
    "complete Scrum state requires exactly one sample per visit"

/-- The checks of a snapshot. -/
def validateSnapshot (p : Platform) : Result Unit := do
  c.validate p
  c.validateMemberReferences
  c.validateWorkReferences
  c.validateCounterReferences
  c.validateOpenVisitStatus
  c.validateSampleCardinality

/-! ### Checks against the blueprint -/

def validateBlueprintTeam (blueprint : ResolvedTeamBlueprint) : Result Unit :=
  require (∀ team ∈ c.teamIds, team = .team blueprint.sha256)
    "Scrum state team must match the persisted blueprint"

def validateBlueprintMembers (blueprint : ResolvedTeamBlueprint) : Result Unit :=
  forM c.memberIdentities fun identity =>
    require (identity.blueprintIndex < blueprint.members.length)
      "member blueprint_index is outside the persisted blueprint"

/-- `_route_for`: the one route of an issue type. -/
def routeFor (blueprint : ResolvedTeamBlueprint) (issueType : IssueType) : Result WorkflowRoute :=
  match blueprint.workflow.routes.filter (fun route => route.issueType = issueType) with
  | [route] => .ok route
  | _ => .error (.valueError "work item issue type must have one blueprint route")

def validateBlueprintWork (blueprint : ResolvedTeamBlueprint) : Result Unit :=
  forM c.workItems fun work => do
    let route ← routeFor blueprint work.issueType
    require (work.currentStatusKey ∈ route.steps.map (·.statusKey))
      "work current status must belong to its blueprint route"

/-- `_status_for`: the one status of a key. -/
def statusFor (blueprint : ResolvedTeamBlueprint) (statusKey : String) : Result WorkflowStatus :=
  match blueprint.workflow.statuses.filter (fun status => status.key = statusKey) with
  | [status] => .ok status
  | _ => .error (.valueError "visit status must exist in the persisted blueprint")

def validateMemberActivity (blueprint : ResolvedTeamBlueprint) (visit : StatusVisitState)
    (activity : String) : Result Unit :=
  match visit.memberId with
  | none => return ()
  | some memberId => do
    let identity ← getItem (·.id) c.memberIdentities memberId
    let member ← getIndex blueprint.members identity.blueprintIndex
    require (activity ∈ member.responsibilities.map (·.activity))
      "visit member must own the blueprint activity"

def validateBlueprintVisit (blueprint : ResolvedTeamBlueprint) (visit : StatusVisitState) :
    Result Unit := do
  let work ← getItem (·.id) c.workItems visit.workItemId
  let route ← routeFor blueprint work.issueType
  let status ← statusFor blueprint visit.statusKey
  require (∃ step ∈ route.steps, (step.statusKey, step.requiredActivity) =
      (visit.statusKey, visit.activityKey))
    "visit activity must match the blueprint route step"
  match visit.activityKey with
  | none => require visit.memberId.isNone "zero-touch visit must not have a member owner"
  | some activity => do
    require (activity ∈ status.activities) "visit activity must belong to the blueprint status"
    c.validateMemberActivity blueprint visit activity

def validateBlueprintVisits (blueprint : ResolvedTeamBlueprint) : Result Unit :=
  forM c.statusVisits (c.validateBlueprintVisit blueprint)

/-- `_authenticated_sample_input`: the inputs of a sample, with its draws drawn again. -/
def authenticatedSampleInput (p : Platform) (blueprint : ResolvedTeamBlueprint)
    (work : WorkItemState) (visit : StatusVisitState) : Result StatusVisitSampleInput := do
  let stream ← DeterministicRandomStream.create blueprint.seed work.teamId work.runId
  return {
    blueprint, workItem := work, visit
    dwellDraw := stream.draw p (.first visit.id .STATUS_DWELL)
    touchDraw := stream.draw p (.first visit.id .STATUS_TOUCH) }

def authenticateSamples (p : Platform) (blueprint : ResolvedTeamBlueprint) : Result Unit :=
  forM c.statusVisitSamples fun sample => do
    let visit ← getItem (·.id) c.statusVisits sample.visitId
    let work ← getItem (·.id) c.workItems visit.workItemId
    let input ← authenticatedSampleInput p blueprint work visit
    input.validate p
    sample.authenticate p input

/-- `validate_against`. -/
def validateAgainst (p : Platform) (blueprint : ResolvedTeamBlueprint) : Result Unit := do
  c.validateBlueprintTeam blueprint
  c.validateBlueprintMembers blueprint
  c.validateBlueprintWork blueprint
  c.validateBlueprintVisits blueprint
  c.authenticateSamples p blueprint

/-! ### Updates -/

/-- The collections with the rows of a write set assigned by identity. -/
def updateWith (changes : ScrumCollections) : ScrumCollections where
  memberIdentities :=
    Keyed.update (·.id) (Keyed.ofList (·.id) c.memberIdentities) changes.memberIdentities
  memberAvailabilityOverlays :=
    Keyed.update (·.id) (Keyed.ofList (·.id) c.memberAvailabilityOverlays)
      changes.memberAvailabilityOverlays
  memberBusinessDateConsumption :=
    Keyed.update (·.key) (Keyed.ofList (·.key) c.memberBusinessDateConsumption)
      changes.memberBusinessDateConsumption
  workItems := Keyed.update (·.id) (Keyed.ofList (·.id) c.workItems) changes.workItems
  workItemFactors :=
    Keyed.update (·.id) (Keyed.ofList (·.id) c.workItemFactors) changes.workItemFactors
  sprints := Keyed.update (·.id) (Keyed.ofList (·.id) c.sprints) changes.sprints
  sprintScope := Keyed.update (·.id) (Keyed.ofList (·.id) c.sprintScope) changes.sprintScope
  statusVisits := Keyed.update (·.id) (Keyed.ofList (·.id) c.statusVisits) changes.statusVisits
  statusVisitSamples :=
    Keyed.update (·.visitId) (Keyed.ofList (·.visitId) c.statusVisitSamples)
      changes.statusVisitSamples
  semanticCounters :=
    Keyed.update (·.scope) (Keyed.ofList (·.scope) c.semanticCounters) changes.semanticCounters
  naturalDecisionEvaluations :=
    Keyed.update (·.id) (Keyed.ofList (·.id) c.naturalDecisionEvaluations)
      changes.naturalDecisionEvaluations

end ScrumCollections

/-! ### Validated states -/

/-- A partial state that passed its checks. -/
structure ScrumStateWriteSet (p : Platform) extends ScrumCollections where
  valid : toScrumCollections.validate p = .ok ()

/-- A complete state that passed its checks. -/
structure ScrumStateSnapshot (p : Platform) extends ScrumCollections where
  valid : toScrumCollections.validateSnapshot p = .ok ()

variable {p : Platform}

/-- `ScrumStateWriteSet(...)` with its validation. -/
def ScrumStateWriteSet.create (c : ScrumCollections) : Result (ScrumStateWriteSet p) :=
  match h : c.validate p with
  | .ok () => .ok { c with valid := h }
  | .error error => .error error

/-- `ScrumStateSnapshot(...)` with its validation. -/
def ScrumStateSnapshot.create (c : ScrumCollections) : Result (ScrumStateSnapshot p) :=
  match h : c.validateSnapshot p with
  | .ok () => .ok { c with valid := h }
  | .error error => .error error

/-- `ScrumStateWriteSet()`. -/
def ScrumStateWriteSet.empty : ScrumStateWriteSet p :=
  { toScrumCollections := {}, valid := rfl }

theorem ScrumStateWriteSet.create_eq_ok {c : ScrumCollections} {w : ScrumStateWriteSet p} :
    ScrumStateWriteSet.create c = .ok w ↔ w.toScrumCollections = c := by
  unfold ScrumStateWriteSet.create
  split
  · rename_i h
    constructor
    · rintro ⟨⟩
      rfl
    · rintro rfl
      rfl
  · rename_i e h
    constructor
    · rintro ⟨⟩
    · rintro rfl
      rw [w.valid] at h
      cases h

theorem ScrumStateSnapshot.create_eq_ok {c : ScrumCollections} {s : ScrumStateSnapshot p} :
    ScrumStateSnapshot.create c = .ok s ↔ s.toScrumCollections = c := by
  unfold ScrumStateSnapshot.create
  split
  · rename_i h
    constructor
    · rintro ⟨⟩
      rfl
    · rintro rfl
      rfl
  · rename_i e h
    constructor
    · rintro ⟨⟩
    · rintro rfl
      rw [s.valid] at h
      cases h

/-- `_merge_write_sets`. -/
def mergeWriteSets (first second : ScrumStateWriteSet p) : Result (ScrumStateWriteSet p) :=
  ScrumStateWriteSet.create (first.updateWith second.toScrumCollections)

/-- The snapshot part of `_with_write_set`. -/
def ScrumStateSnapshot.withWriteSet (scrum : ScrumStateSnapshot p)
    (changes : ScrumStateWriteSet p) : Result (ScrumStateSnapshot p) :=
  ScrumStateSnapshot.create (scrum.updateWith changes.toScrumCollections)

end JiraSimulator
