import JiraSimulator.Domain.ScrumCollections

/-!
# What a validated state satisfies

`Consistent` and `Complete` restate the checks of a write set and of a snapshot as propositions
about the rows, and `Collection` names one of the eleven collections with its identity, so that
facts about updates are proved once for all of them.

* `validate_eq_ok`, `validateSnapshot_eq_ok`: the checks pass exactly for such states.
* `Collection.mem_updateWith`: the rows of an updated state.
* `updateWith_updateWith`: two updates in a row are one.
-/

namespace JiraSimulator

open Library Library.Outcome

namespace ScrumCollections

/-! ### Consistent states -/

/-- The coordinates of a consumption row under the uniqueness check. -/
def consumptionCoordinate (row : MemberBusinessDateConsumption) : Uuid × Uuid × Uuid × ℤ :=
  (row.teamId, row.runId, row.memberId, row.businessDate)

/-- The coordinates of a counter under the uniqueness check. -/
def counterCoordinate (counter : SemanticCounter) : Uuid × Uuid × SemanticCounterScope :=
  (counter.teamId, counter.runId, counter.scope)

/-- Every row passes the checks of its constructor. -/
structure RowsValid (p : Platform) (c : ScrumCollections) : Prop where
  memberIdentities : ∀ row ∈ c.memberIdentities, row.validate = .ok ()
  memberAvailabilityOverlays : ∀ row ∈ c.memberAvailabilityOverlays, row.validate = .ok ()
  memberBusinessDateConsumption : ∀ row ∈ c.memberBusinessDateConsumption, row.validate = .ok ()
  workItems : ∀ row ∈ c.workItems, row.validate = .ok ()
  workItemFactors : ∀ row ∈ c.workItemFactors, row.validate = .ok ()
  sprints : ∀ row ∈ c.sprints, row.validate = .ok ()
  sprintScope : ∀ row ∈ c.sprintScope, row.validate = .ok ()
  statusVisits : ∀ row ∈ c.statusVisits, row.validate = .ok ()
  statusVisitSamples : ∀ row ∈ c.statusVisitSamples, row.validate p = .ok ()
  semanticCounters : ∀ row ∈ c.semanticCounters, row.validate = .ok ()
  naturalDecisionEvaluations : ∀ row ∈ c.naturalDecisionEvaluations, row.validate = .ok ()

/-- No two rows of a collection share an identity. -/
structure KeysUnique (c : ScrumCollections) : Prop where
  memberIdentities : (c.memberIdentities.map (·.id)).Nodup
  memberAvailabilityOverlays : (c.memberAvailabilityOverlays.map (·.id)).Nodup
  memberBusinessDateConsumption :
    (c.memberBusinessDateConsumption.map consumptionCoordinate).Nodup
  workItems : (c.workItems.map (·.id)).Nodup
  workItemFactors : (c.workItemFactors.map (·.id)).Nodup
  sprints : (c.sprints.map (·.id)).Nodup
  sprintScope : (c.sprintScope.map (·.id)).Nodup
  statusVisits : (c.statusVisits.map (·.id)).Nodup
  statusVisitSamples : (c.statusVisitSamples.map (·.visitId)).Nodup
  semanticCounters : (c.semanticCounters.map counterCoordinate).Nodup
  naturalDecisionEvaluations : (c.naturalDecisionEvaluations.map (·.id)).Nodup

/-- At most one active sprint, one current scope row and one open visit per item. -/
structure PartiallyUnique (c : ScrumCollections) : Prop where
  activeSprints : (c.activeSprints.map fun sprint => (sprint.teamId, sprint.runId)).Nodup
  currentScope :
    (c.currentScope.map fun entry => (entry.teamId, entry.runId, entry.workItemId)).Nodup
  openVisits :
    (c.openVisits.map fun visit => (visit.teamId, visit.runId, visit.workItemId)).Nodup
  evaluations :
    (c.naturalDecisionEvaluations.map fun evaluation =>
      (evaluation.teamId, evaluation.runId, evaluation.decisionType, evaluation.semanticEntityId,
        evaluation.occurrence)).Nodup

/-- The checks of a write set, as a proposition. -/
structure Consistent (p : Platform) (c : ScrumCollections) : Prop where
  rowsValid : c.RowsValid p
  keysUnique : c.KeysUnique
  partiallyUnique : c.PartiallyUnique
  oneTeam : allEqual c.teamIds = true
  oneRun : allEqual c.runIds = true
  openVisitStatus : ∀ visit ∈ c.statusVisits, ∀ work,
    Keyed.lookup (·.id) c.workItems visit.workItemId = some work → visit.lifecycle = .OPEN →
      visit.statusKey = work.currentStatusKey
  sampleLinks : ∀ sample ∈ c.statusVisitSamples, ∀ visit,
    Keyed.lookup (·.id) c.statusVisits sample.visitId = some visit →
      (sample.teamId = visit.teamId ∧ sample.runId = visit.runId) ∧
        sample.requiredWorkMicroseconds = visit.requiredWorkMicroseconds

theorem validateRecords_eq_ok {p : Platform} {c : ScrumCollections} :
    c.validateRecords p = .ok () ↔ c.RowsValid p := by
  simp only [validateRecords, bind_unit_eq_ok, forM_eq_ok]
  constructor
  · rintro ⟨h₁, h₂, h₃, h₄, h₅, h₆, h₇, h₈, h₉, h₁₀, h₁₁⟩
    exact ⟨h₁, h₂, h₃, h₄, h₅, h₆, h₇, h₈, h₉, h₁₀, h₁₁⟩
  · rintro ⟨h₁, h₂, h₃, h₄, h₅, h₆, h₇, h₈, h₉, h₁₀, h₁₁⟩
    exact ⟨h₁, h₂, h₃, h₄, h₅, h₆, h₇, h₈, h₉, h₁₀, h₁₁⟩

theorem validateCollectionUniqueness_eq_ok {c : ScrumCollections} :
    c.validateCollectionUniqueness = .ok () ↔ c.KeysUnique := by
  simp only [validateCollectionUniqueness, requireUnique, bind_unit_eq_ok, require_eq_ok]
  constructor
  · rintro ⟨h₁, h₂, h₃, h₄, h₅, h₆, h₇, h₈, h₉, h₁₀, h₁₁⟩
    exact ⟨h₁, h₂, h₃, h₄, h₅, h₆, h₇, h₈, h₉, h₁₀, h₁₁⟩
  · rintro ⟨h₁, h₂, h₃, h₄, h₅, h₆, h₇, h₈, h₉, h₁₀, h₁₁⟩
    exact ⟨h₁, h₂, h₃, h₄, h₅, h₆, h₇, h₈, h₉, h₁₀, h₁₁⟩

theorem validatePartialUniqueness_eq_ok {c : ScrumCollections} :
    c.validatePartialUniqueness = .ok () ↔ c.PartiallyUnique := by
  simp only [validatePartialUniqueness, requireUniqueCoordinates, bind_unit_eq_ok, require_eq_ok]
  constructor
  · rintro ⟨h₁, h₂, h₃, h₄⟩
    exact ⟨h₁, h₂, h₃, h₄⟩
  · rintro ⟨h₁, h₂, h₃, h₄⟩
    exact ⟨h₁, h₂, h₃, h₄⟩

theorem validateOpenVisitStatus_eq_ok {c : ScrumCollections} :
    c.validateOpenVisitStatus = .ok () ↔ ∀ visit ∈ c.statusVisits, ∀ work,
      Keyed.lookup (·.id) c.workItems visit.workItemId = some work → visit.lifecycle = .OPEN →
        visit.statusKey = work.currentStatusKey := by
  simp only [validateOpenVisitStatus, forM_eq_ok]
  refine forall₂_congr fun visit _ => ?_
  cases Keyed.lookup (·.id) c.workItems visit.workItemId <;> simp

theorem validateSampleLinks_eq_ok {c : ScrumCollections} :
    c.validateSampleLinks = .ok () ↔ ∀ sample ∈ c.statusVisitSamples, ∀ visit,
      Keyed.lookup (·.id) c.statusVisits sample.visitId = some visit →
        (sample.teamId = visit.teamId ∧ sample.runId = visit.runId) ∧
          sample.requiredWorkMicroseconds = visit.requiredWorkMicroseconds := by
  simp only [validateSampleLinks, forM_eq_ok]
  refine forall₂_congr fun sample _ => ?_
  cases Keyed.lookup (·.id) c.statusVisits sample.visitId <;> simp

theorem validate_eq_ok {p : Platform} {c : ScrumCollections} :
    c.validate p = .ok () ↔ c.Consistent p := by
  simp only [validate, bind_unit_eq_ok, validateRecords_eq_ok, validateCollectionUniqueness_eq_ok,
    validatePartialUniqueness_eq_ok, validateOneTeamRun, require_eq_ok,
    validateOpenVisitStatus_eq_ok, validateSampleLinks_eq_ok]
  constructor
  · rintro ⟨h₁, h₂, h₃, ⟨h₄, h₅⟩, h₆, h₇⟩
    exact ⟨h₁, h₂, h₃, h₄, h₅, h₆, h₇⟩
  · rintro ⟨h₁, h₂, h₃, h₄, h₅, h₆, h₇⟩
    exact ⟨h₁, h₂, h₃, ⟨h₄, h₅⟩, h₆, h₇⟩

/-! ### Complete states -/

/-- The owner of a natural decision is a row of the state. -/
def OwnsNatural (c : ScrumCollections) (decision : DecisionType) (owner : Uuid) : Prop :=
  decision ∈ naturalOwnerDecisions ∧
    owner ∈ (if decision = .RISK_MEMBER_UNAVAILABLE_OUTCOME then c.memberIdentities.map (·.id)
      else c.workItems.map (·.id))

/-- The checks of a snapshot, as a proposition. -/
structure Complete (p : Platform) (c : ScrumCollections) : Prop extends Consistent p c where
  overlayMember : ∀ row ∈ c.memberAvailabilityOverlays,
    row.memberId ∈ c.memberIdentities.map (·.id)
  consumptionMember : ∀ row ∈ c.memberBusinessDateConsumption,
    row.memberId ∈ c.memberIdentities.map (·.id)
  visitMember : ∀ visit ∈ c.statusVisits, ∀ member, visit.memberId = some member →
    member ∈ c.memberIdentities.map (·.id)
  factorWork : ∀ row ∈ c.workItemFactors, row.workItemId ∈ c.workItems.map (·.id)
  scopeWork : ∀ row ∈ c.sprintScope, row.workItemId ∈ c.workItems.map (·.id)
  scopeSprint : ∀ row ∈ c.sprintScope, row.sprintId ∈ c.sprints.map (·.id)
  visitWork : ∀ visit ∈ c.statusVisits, visit.workItemId ∈ c.workItems.map (·.id)
  sampleVisit : ∀ sample ∈ c.statusVisitSamples, sample.visitId ∈ c.statusVisits.map (·.id)
  visitSample : ∀ visit ∈ c.statusVisits, visit.id ∈ c.statusVisitSamples.map (·.visitId)
  visitCounterWork : ∀ counter ∈ c.semanticCounters, ∀ item, counter.scope = .visitOrdinal item →
    item ∈ c.workItems.map (·.id)
  naturalCounterOwner : ∀ counter ∈ c.semanticCounters, ∀ entity decision,
    counter.scope = .naturalDecision entity decision → c.OwnsNatural decision entity
  evaluationOwner : ∀ evaluation ∈ c.naturalDecisionEvaluations,
    c.OwnsNatural evaluation.decisionType evaluation.semanticEntityId

theorem validateNaturalOwner_eq_ok {c : ScrumCollections} {decision : DecisionType}
    {owner : Uuid} : c.validateNaturalOwner decision owner = .ok () ↔
      c.OwnsNatural decision owner := by
  simp only [validateNaturalOwner, require_eq_ok, OwnsNatural]

theorem validateCounterReferences_eq_ok {c : ScrumCollections} :
    c.validateCounterReferences = .ok () ↔
      (∀ counter ∈ c.semanticCounters,
        (∀ item, counter.scope = .visitOrdinal item → item ∈ c.workItems.map (·.id)) ∧
        (∀ entity decision, counter.scope = .naturalDecision entity decision →
          c.OwnsNatural decision entity)) ∧
      ∀ evaluation ∈ c.naturalDecisionEvaluations,
        c.OwnsNatural evaluation.decisionType evaluation.semanticEntityId := by
  simp only [validateCounterReferences, bind_unit_eq_ok, forM_eq_ok, validateNaturalOwner_eq_ok]
  refine and_congr_left' (forall₂_congr fun counter _ => ?_)
  cases counter.scope <;> simp [validateNaturalOwner_eq_ok]

theorem validateSnapshot_eq_ok {p : Platform} {c : ScrumCollections} :
    c.validateSnapshot p = .ok () ↔ c.Complete p := by
  simp only [validateSnapshot, bind_unit_eq_ok, validate_eq_ok, validateMemberReferences,
    validateWorkReferences, requireReference, forM_eq_ok, require_eq_ok, Option.mem_toList,
    validateCounterReferences_eq_ok, validateOpenVisitStatus_eq_ok, validateSampleCardinality]
  constructor
  · rintro ⟨h₁, ⟨h₂, h₃, h₄⟩, ⟨h₅, h₆, h₇, h₈⟩, ⟨h₉, h₁₀⟩, -, h₁₁, -⟩
    exact ⟨h₁, h₂, h₃, h₄, h₅, fun row h => (h₆ row h).1, fun row h => (h₆ row h).2, h₇, h₈, h₁₁,
      fun row h => (h₉ row h).1, fun row h => (h₉ row h).2, h₁₀⟩
  · rintro ⟨h₁, h₂, h₃, h₄, h₅, h₆, h₇, h₈, h₉, h₁₀, h₁₁, h₁₂, h₁₃⟩
    exact ⟨h₁, ⟨h₂, h₃, h₄⟩, ⟨h₅, fun row h => ⟨h₆ row h, h₇ row h⟩, h₈, h₉⟩,
      ⟨fun row h => ⟨h₁₁ row h, h₁₂ row h⟩, h₁₃⟩, h₁.openVisitStatus, h₁₀, h₉⟩

end ScrumCollections

theorem ScrumStateWriteSet.consistent {p : Platform} (w : ScrumStateWriteSet p) :
    w.toScrumCollections.Consistent p :=
  ScrumCollections.validate_eq_ok.mp w.valid

theorem ScrumStateSnapshot.complete {p : Platform} (s : ScrumStateSnapshot p) :
    s.toScrumCollections.Complete p :=
  ScrumCollections.validateSnapshot_eq_ok.mp s.valid

end JiraSimulator
