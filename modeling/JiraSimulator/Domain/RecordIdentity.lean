import JiraSimulator.Domain.TeamRuntime

/-!
# Identities of the rows by their attributes

`scrum_tick.py` and `risks.py` have a copy each of `_with_write_set` and `_merge_write_sets`.  Both
find the identity of a row by asking which attributes it has, and rebuild every collection as a
dictionary from identities to rows.
-/

namespace JiraSimulator

open Library

/-- A row of any of the collections. -/
inductive ScrumRecord where
  | memberIdentity (row : MemberIdentity)
  | availabilityOverlay (row : MemberAvailabilityOverlay)
  | businessDateConsumption (row : MemberBusinessDateConsumption)
  | workItem (row : WorkItemState)
  | workItemFactor (row : WorkItemFactor)
  | sprint (row : SprintState)
  | scopeEntry (row : SprintScopeEntry)
  | statusVisit (row : StatusVisitState)
  | visitSample (row : StatusVisitSample)
  | semanticCounter (row : SemanticCounter)
  | naturalEvaluation (row : NaturalDecisionEvaluation)

namespace ScrumRecord

/-- `value.id`, when the record has this attribute. -/
def id? : ScrumRecord → Option Uuid
  | memberIdentity row => some row.id
  | availabilityOverlay row => some row.id
  | businessDateConsumption _ => none
  | workItem row => some row.id
  | workItemFactor row => some row.id
  | sprint row => some row.id
  | scopeEntry row => some row.id
  | statusVisit row => some row.id
  | visitSample _ => none
  | semanticCounter _ => none
  | naturalEvaluation row => some row.id

/-- `value.visit_id`, when the record has this attribute. -/
def visitId? : ScrumRecord → Option Uuid
  | visitSample row => some row.visitId
  | _ => none

/-- `value.scope`, when the record has this attribute. -/
def scope? : ScrumRecord → Option SemanticCounterScope
  | semanticCounter row => some row.scope
  | _ => none

end ScrumRecord

/-- A key of the dictionaries. -/
inductive RecordIdentity where
  | memberDate (memberId : Uuid) (businessDate : ℤ)
  | uuid (id : Uuid)
  | scope (scope : SemanticCounterScope)
  deriving DecidableEq

/-- `_state_identity` of `scrum_tick.py`. -/
def stateIdentity (value : ScrumRecord) : Result RecordIdentity :=
  match value with
  | .businessDateConsumption row => .ok (.memberDate row.memberId row.businessDate)
  | value =>
    match value.id? with
    | some id => .ok (.uuid id)
    | none =>
      match value.visitId? with
      | some visitId => .ok (.uuid visitId)
      | none =>
        -- `value.scope` without a check
        match value.scope? with
        | some scope => .ok (.scope scope)
        | none => .error .attributeError

/-- `_identity` of `risks.py`. -/
def riskIdentity (value : ScrumRecord) : Result RecordIdentity :=
  match value with
  | .businessDateConsumption row => .ok (.memberDate row.memberId row.businessDate)
  | value =>
    match value.id? with
    | some id => .ok (.uuid id)
    | none =>
      match value.visitId? with
      | some visitId => .ok (.uuid visitId)
      | none =>
        match value.scope? with
        | some scope => .ok (.scope scope)
        | none => .error (.typeError "risk state row has no persistence identity")

/-! ### Dictionaries of rows -/

section dictionaries

variable {α : Type} (identity : ScrumRecord → Result RecordIdentity)

/-- `{identity(item): item for item in items}`, in the order of the dictionary. -/
def recordsOf (record : α → ScrumRecord) (items : List α) : Result (List (RecordIdentity × α)) := do
  let entries ← items.mapM fun item => do
    let key ← identity (record item)
    return (key, item)
  return Keyed.ofList Prod.fst entries

/-- One field of the two functions: the dictionary of the existing rows, updated by that of the
changes, as its values. -/
def updatedRecords (record : α → ScrumRecord) (existing changes : List α) : Result (List α) := do
  let records ← recordsOf identity record existing
  let updates ← recordsOf identity record changes
  return (Keyed.update Prod.fst records updates).map Prod.snd

/-- The loop over the fields. -/
def updatedCollections (existing changes : ScrumCollections) : Result ScrumCollections := do
  let memberIdentities ← updatedRecords identity .memberIdentity
    existing.memberIdentities changes.memberIdentities
  let memberAvailabilityOverlays ← updatedRecords identity .availabilityOverlay
    existing.memberAvailabilityOverlays changes.memberAvailabilityOverlays
  let memberBusinessDateConsumption ← updatedRecords identity .businessDateConsumption
    existing.memberBusinessDateConsumption changes.memberBusinessDateConsumption
  let workItems ← updatedRecords identity .workItem existing.workItems changes.workItems
  let workItemFactors ← updatedRecords identity .workItemFactor
    existing.workItemFactors changes.workItemFactors
  let sprints ← updatedRecords identity .sprint existing.sprints changes.sprints
  let sprintScope ← updatedRecords identity .scopeEntry existing.sprintScope changes.sprintScope
  let statusVisits ← updatedRecords identity .statusVisit existing.statusVisits changes.statusVisits
  let statusVisitSamples ← updatedRecords identity .visitSample
    existing.statusVisitSamples changes.statusVisitSamples
  let semanticCounters ← updatedRecords identity .semanticCounter
    existing.semanticCounters changes.semanticCounters
  let naturalDecisionEvaluations ← updatedRecords identity .naturalEvaluation
    existing.naturalDecisionEvaluations changes.naturalDecisionEvaluations
  return { memberIdentities, memberAvailabilityOverlays, memberBusinessDateConsumption, workItems
           workItemFactors, sprints, sprintScope, statusVisits, statusVisitSamples
           semanticCounters, naturalDecisionEvaluations }

end dictionaries

/-! ### The two copies -/

variable {p : Platform}

/-- `_merge_write_sets`, with the identity of its module. -/
def mergeByIdentity (identity : ScrumRecord → Result RecordIdentity)
    (first second : ScrumStateWriteSet p) : Result (ScrumStateWriteSet p) := do
  let values ← updatedCollections identity first.toScrumCollections second.toScrumCollections
  ScrumStateWriteSet.create values

/-- `_with_write_set`, with the identity of its module. -/
def overlayByIdentity (identity : ScrumRecord → Result RecordIdentity) (state : LiveTeamState p)
    (writeSet : ScrumStateWriteSet p) : Result (LiveTeamState p) := do
  let values ← updatedCollections identity state.scrum.toScrumCollections
    writeSet.toScrumCollections
  let scrum ← ScrumStateSnapshot.create values
  return { aggregate := state.aggregate, scrum }

end JiraSimulator
