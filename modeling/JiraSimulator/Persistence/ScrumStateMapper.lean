import JiraSimulator.Domain.ScrumCollections

/-!
# Loading a Scrum state

Rows are loaded in a fixed order and checked as a snapshot and against the blueprint of the team; a
write is checked by loading the state that it would produce.
-/

namespace JiraSimulator

open Library

variable {p : Platform}

/-! ### The order of loaded rows -/

def CreationKind.order : CreationKind → ℤ
  | .AGENT_CREATED => 0
  | .INITIAL_BACKLOG => 1
  | .JIRA_IMPORTED => 2
  | .KANBAN_ARRIVAL => 3
  | .SCRUM_REPLENISHMENT => 4

def FactorKind.order : FactorKind → ℤ
  | .DESCRIPTION_QUALITY => 0
  | .LATENT_COMPLEXITY => 1

def DecisionType.order : DecisionType → ℤ
  | .BACKLOG_ISSUE_TYPE => 0
  | .BACKLOG_PRIORITY => 1
  | .BACKLOG_STORY_POINTS => 2
  | .FORCED_REWORK_DURATION => 3
  | .ITEM_DESCRIPTION_QUALITY => 4
  | .ITEM_LATENT_COMPLEXITY => 5
  | .KANBAN_ARRIVAL_GAP => 6
  | .KANBAN_CLASS_OF_SERVICE => 7
  | .RISK_CANCELLATION_OUTCOME => 8
  | .RISK_EXTERNAL_DEPENDENCY_DURATION => 9
  | .RISK_EXTERNAL_DEPENDENCY_OUTCOME => 10
  | .RISK_MEMBER_UNAVAILABLE_DURATION => 11
  | .RISK_MEMBER_UNAVAILABLE_OUTCOME => 12
  | .RISK_REVIEW_REJECTION_OUTCOME => 13
  | .RISK_REWORK_DURATION => 14
  | .SCRUM_CAPACITY_TARGET => 15
  | .STATUS_DWELL => 16
  | .STATUS_TOUCH => 17

/-- The texts of kind, scope and key of a counter scope, by their order. -/
def SemanticCounterScope.order (p : Platform) : SemanticCounterScope → List ℤ
  | .itemSequence team kind => [0, p.uuidInt team, kind.order]
  | .naturalDecision entity decision => [1, p.uuidInt entity, decision.order]
  | .sprintOrdinal team => [2, p.uuidInt team, 0]
  | .visitOrdinal item => [3, p.uuidInt item, 0]

/-- The rows in the order of `LOAD_SPECS`. -/
def ScrumCollections.sorted (p : Platform) (c : ScrumCollections) : ScrumCollections where
  memberIdentities :=
    Ordering.sortOn (fun row => [(row.blueprintIndex : ℤ), p.uuidInt row.id]) c.memberIdentities
  memberAvailabilityOverlays :=
    Ordering.sortOn (fun row => [row.startsAt, (p.uuidInt row.id : ℤ)])
      c.memberAvailabilityOverlays
  memberBusinessDateConsumption :=
    Ordering.sortOn (fun row => [row.businessDate, (p.uuidInt row.memberId : ℤ)])
      c.memberBusinessDateConsumption
  workItems :=
    Ordering.sortOn
      (fun row => [row.creationKind.order, (row.creationSequence : ℤ), p.uuidInt row.id])
      c.workItems
  workItemFactors :=
    Ordering.sortOn (fun row => [(p.uuidInt row.workItemId : ℤ), row.kind.order, p.uuidInt row.id])
      c.workItemFactors
  sprints := Ordering.sortOn (fun row => [(row.ordinal : ℤ), p.uuidInt row.id]) c.sprints
  sprintScope :=
    Ordering.sortOn
      (fun row => [(p.uuidInt row.sprintId : ℤ), p.uuidInt row.workItemId, p.uuidInt row.id])
      c.sprintScope
  statusVisits :=
    Ordering.sortOn
      (fun row => [(p.uuidInt row.workItemId : ℤ), row.ordinal, p.uuidInt row.id]) c.statusVisits
  statusVisitSamples :=
    Ordering.sortOn (fun row => [(p.uuidInt row.visitId : ℤ)]) c.statusVisitSamples
  semanticCounters := Ordering.sortOn (fun row => row.scope.order p) c.semanticCounters
  naturalDecisionEvaluations :=
    Ordering.sortOn
      (fun row => [row.decisionType.order, (p.uuidInt row.semanticEntityId : ℤ), row.businessDate,
        p.uuidInt row.id])
      c.naturalDecisionEvaluations

/-- `_load_validated_snapshot`: the rows in load order, checked as a snapshot and against the
blueprint. -/
def loadSnapshot (blueprint : ResolvedTeamBlueprint) (rows : ScrumCollections) :
    Result (ScrumStateSnapshot p) := do
  let snapshot ← ScrumStateSnapshot.create (rows.sorted p)
  snapshot.validateAgainst p blueprint
  return snapshot

/-- `_candidate_snapshot`: the snapshot with the rows of a write set, checked like a loaded one. -/
def candidateSnapshot (blueprint : ResolvedTeamBlueprint) (current : ScrumStateSnapshot p)
    (changes : ScrumStateWriteSet p) : Result (ScrumStateSnapshot p) :=
  loadSnapshot blueprint (current.updateWith changes.toScrumCollections)

end JiraSimulator
