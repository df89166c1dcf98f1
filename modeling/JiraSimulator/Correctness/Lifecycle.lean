import JiraSimulator.Correctness.Collections
import JiraSimulator.Correctness.NewVisits
import JiraSimulator.Domain.SprintLifecycle

/-!
# Sprint transitions

What the activation of a planned sprint and the rollover of the active one write.

* `Activation`: the rows of the items that a sprint takes over from the backlog.
* `crossSprintBoundary_eq_ok`: the cases of a sprint boundary.
-/

namespace JiraSimulator

open Library Library.Outcome

variable {p : Platform}

/-! ### Activated items -/

/-- The rows written for the selected items: each is activated once. -/
structure Activation (p : Platform) (blueprint : ResolvedTeamBlueprint) (startedAt : ℤ)
    (members : List MemberIdentity) (draws : DrawSource) (items : List WorkItemState)
    (selected : List Uuid) (workItems : List WorkItemState) (visits : List StatusVisitState)
    (samples : List StatusVisitSample) : Prop where
  total : ∀ item ∈ items, item.id ∈ selected →
    ∃ activated, activateItem p blueprint startedAt members draws item = .ok activated
  workItems : ∀ row, row ∈ workItems ↔ ∃ item ∈ items, item.id ∈ selected ∧
    ∃ activated, activateItem p blueprint startedAt members draws item = .ok activated ∧
      row = activated.item
  visits : ∀ row, row ∈ visits ↔ ∃ item ∈ items, item.id ∈ selected ∧
    ∃ activated, activateItem p blueprint startedAt members draws item = .ok activated ∧
      row ∈ activated.visits
  samples : ∀ row, row ∈ samples ↔ ∃ item ∈ items, item.id ∈ selected ∧
    ∃ activated, activateItem p blueprint startedAt members draws item = .ok activated ∧
      row ∈ activated.samples

theorem activateItem_id {blueprint : ResolvedTeamBlueprint} {startedAt : ℤ}
    {members : List MemberIdentity} {draws : DrawSource} {item : WorkItemState}
    {activated : ActivatedItem}
    (h : activateItem p blueprint startedAt members draws item = .ok activated) :
    activated.item.id = item.id := by
  obtain ⟨route, -, ⟨terminal, -, -, -, -, rfl⟩ | ⟨step, member, visit, sample, -, -, -, -, rfl⟩⟩ :=
    activateItem_eq_ok h <;> rfl

/-- Every item gives one result: activated when it is selected, and itself otherwise. -/
theorem activateSelectedWork_eq_ok {aggregate : PersistedTeamAggregate} {startedAt : ℤ}
    {members : List MemberIdentity} {draws : DrawSource} {items : List WorkItemState}
    {selected : List Uuid} {results : List ActivatedItem}
    (h : activateSelectedWork p aggregate startedAt members items selected draws = .ok results) :
    List.Forall₂ (fun item result =>
      (item.id ∈ selected ∧
        activateItem p aggregate.blueprint startedAt members draws item = .ok result) ∨
      (item.id ∉ selected ∧ result = { item, visits := [], samples := [] })) items results := by
  refine (mapM_eq_ok.mp h).imp fun item result hresult => ?_
  split_ifs at hresult with hselected
  · exact .inl ⟨hselected, hresult⟩
  · exact .inr ⟨hselected, (Except.ok.inj hresult).symm⟩

theorem activation_of_results {aggregate : PersistedTeamAggregate} {startedAt : ℤ}
    {members : List MemberIdentity} {draws : DrawSource} {items : List WorkItemState}
    {selected : List Uuid} {results : List ActivatedItem}
    (h : activateSelectedWork p aggregate startedAt members items selected draws = .ok results) :
    Activation p aggregate.blueprint startedAt members draws items selected
      ((results.map (·.item)).filter fun item => item.id ∈ selected)
      (results.flatMap (·.visits)) (results.flatMap (·.samples)) := by
  have hall := activateSelectedWork_eq_ok h
  -- an item that is not selected is kept without visits and samples
  have hmem : ∀ {β : Type} (rows : ActivatedItem → List β),
      (∀ item, rows { item, visits := [], samples := [] } = []) → ∀ row,
      row ∈ results.flatMap rows ↔ ∃ item ∈ items, item.id ∈ selected ∧
        ∃ activated, activateItem p aggregate.blueprint startedAt members draws item =
          .ok activated ∧ row ∈ rows activated := by
    intro β rows hrows row
    rw [List.mem_flatMap]
    constructor
    · rintro ⟨result, hresult, hrow⟩
      obtain ⟨item, hitem, ⟨hselected, hactivate⟩ | ⟨-, rfl⟩⟩ := forall₂_exists_left hall hresult
      · exact ⟨item, hitem, hselected, result, hactivate, hrow⟩
      · rw [hrows] at hrow
        cases hrow
    · rintro ⟨item, hitem, hselected, activated, hactivate, hrow⟩
      obtain ⟨result, hresult, ⟨-, hactivate'⟩ | ⟨hnot, -⟩⟩ := forall₂_exists_right hall hitem
      · rw [hactivate] at hactivate'
        cases hactivate'
        exact ⟨activated, hresult, hrow⟩
      · exact absurd hselected hnot
  refine ⟨fun item hitem hselected => ?_, fun row => ?_, fun row => ?_, fun row => ?_⟩
  · obtain ⟨result, -, ⟨-, hactivate⟩ | ⟨hnot, -⟩⟩ := forall₂_exists_right hall hitem
    · exact ⟨result, hactivate⟩
    · exact absurd hselected hnot
  · rw [List.mem_filter, List.mem_map, decide_eq_true_eq]
    constructor
    · rintro ⟨⟨result, hresult, rfl⟩, hselected⟩
      obtain ⟨item, hitem, ⟨hmem, hactivate⟩ | ⟨hnot, rfl⟩⟩ := forall₂_exists_left hall hresult
      · exact ⟨item, hitem, hmem, result, hactivate, rfl⟩
      · exact absurd hselected hnot
    · rintro ⟨item, hitem, hselected, activated, hactivate, rfl⟩
      obtain ⟨result, hresult, ⟨-, hactivate'⟩ | ⟨hnot, -⟩⟩ := forall₂_exists_right hall hitem
      · rw [hactivate] at hactivate'
        cases hactivate'
        exact ⟨⟨activated, hresult, rfl⟩, by rwa [activateItem_id hactivate]⟩
      · exact absurd hselected hnot
  · exact hmem (·.visits) (fun _ => rfl) row
  · exact hmem (·.samples) (fun _ => rfl) row

/-! ### Scope rows -/

/-- The scope row of an item that a sprint takes over. -/
def newScopeEntry (state : LiveTeamState p) (sprintId : Uuid) (addedAt : ℤ) (item : Uuid) :
    SprintScopeEntry where
  id := .sprintScope sprintId item
  teamId := state.aggregate.runtime.teamId
  runId := state.aggregate.runtime.runId
  sprintId := sprintId
  workItemId := item
  addedAt := addedAt
  removedAt := none

theorem sprintScopeEntries_eq_ok {state : LiveTeamState p} {sprintId : Uuid} {items : List Uuid}
    {boundary : ℤ} {entries : List SprintScopeEntry}
    (h : sprintScopeEntries state sprintId items boundary = .ok entries) :
    entries = items.map (newScopeEntry state sprintId boundary) := by
  refine mapM_eq_map h fun item entry hentry => ?_
  simp only [scopeEntry, validated_eq_ok] at hentry
  exact hentry.2.symm

/-- The current scope rows of a sprint. -/
def currentScopeOf (state : LiveTeamState p) (sprint : SprintState) : List SprintScopeEntry :=
  state.scrum.sprintScope.filter fun entry => entry.sprintId = sprint.id && entry.removedAt.isNone

theorem closedScope_eq_ok {state : LiveTeamState p} {sprint : SprintState} {boundary : ℤ}
    {entries : List SprintScopeEntry} (h : closedScope state sprint boundary = .ok entries) :
    entries = (currentScopeOf state sprint).map fun entry =>
      { entry with removedAt := some boundary } := by
  refine mapM_eq_map h fun entry closed hclosed => ?_
  simp only [validated_eq_ok] at hclosed
  exact hclosed.2.symm

/-! ### The items that a sprint takes over -/

theorem mem_carryoverIds {state : LiveTeamState p} {sprintId : Uuid} {ids : List Uuid}
    (h : carryoverIds state sprintId = .ok ids) {id : Uuid} (hid : id ∈ ids) :
    (∃ item ∈ state.scrum.workItems, item.id = id ∧ item.lifecycle = .ACTIVE) ∧
      ∃ entry ∈ state.scrum.sprintScope, entry.sprintId = sprintId ∧ entry.removedAt = none ∧
        entry.workItemId = id := by
  simp only [carryoverIds, bind_eq_ok, pure_eq_ok] at h
  obtain ⟨items, hitems, rfl⟩ := h
  obtain ⟨item, hitem, rfl⟩ := List.mem_map.mp hid
  obtain ⟨hitem, hactive⟩ := List.mem_filter.mp hitem
  obtain ⟨entry, hentry, hget⟩ := exists_of_mem_mapM hitems hitem
  obtain ⟨hmem, hkey⟩ := getItem_eq_ok hget
  obtain ⟨hentry, hcurrent⟩ := List.mem_filter.mp hentry
  simp only [Bool.and_eq_true, decide_eq_true_eq, Option.isNone_iff_eq_none] at hcurrent
  exact ⟨⟨item, hmem, rfl, by simpa using hactive⟩, entry, hentry, hcurrent.1, hcurrent.2,
    hkey.symm⟩

theorem mem_takeBacklog {minPoints : ℕ} {target : ℤ} {used : ℕ} {items : List WorkItemState}
    {id : Uuid} (h : id ∈ takeBacklog minPoints target used items) :
    ∃ item ∈ items, item.id = id ∧ item.lifecycle = .BACKLOG := by
  induction items generalizing used with
  | nil => simp [takeBacklog] at h
  | cons item items ih =>
    have htail : ∀ used', id ∈ takeBacklog minPoints target used' items →
        ∃ other ∈ item :: items, other.id = id ∧ other.lifecycle = .BACKLOG := by
      intro used' hmem
      obtain ⟨other, hother, hid⟩ := ih hmem
      exact ⟨other, List.mem_cons_of_mem _ hother, hid⟩
    rw [takeBacklog] at h
    split_ifs at h with hlifecycle hfull
    · exact htail used h
    · cases h
    · rcases List.mem_cons.mp h with rfl | h
      · exact ⟨item, List.mem_cons_self, rfl, not_not.mp hlifecycle⟩
      · exact htail _ h

theorem mem_rankedBacklogIds {state : LiveTeamState p} {sprintId : Uuid} {carryIds ids : List Uuid}
    {draws : DrawSource} (h : rankedBacklogIds state sprintId carryIds draws = .ok ids) {id : Uuid}
    (hid : id ∈ ids) :
    ∃ item ∈ state.scrum.workItems, item.id = id ∧ item.lifecycle = .BACKLOG := by
  simp only [rankedBacklogIds, bind_eq_ok, pure_eq_ok] at h
  obtain ⟨carried, -, rfl⟩ := h
  obtain ⟨item, hitem, hid⟩ := mem_takeBacklog hid
  exact ⟨item, Ordering.mem_sortOn.mp hitem, hid⟩

theorem mem_takeWithinCapacity {minPoints : ℕ} {target : ℤ} {used : ℕ}
    {items : List WorkItemState} {id : Uuid}
    (h : id ∈ takeWithinCapacity minPoints target used items) : id ∈ items.map (·.id) := by
  induction items generalizing used with
  | nil => simp [takeWithinCapacity] at h
  | cons item items ih =>
    rw [takeWithinCapacity] at h
    split_ifs at h
    · cases h
    · rcases List.mem_cons.mp h with rfl | h
      · exact List.mem_cons_self
      · exact List.mem_cons_of_mem _ (ih h)

/-! ### The cases of a boundary -/

/-- The sprint that starts at its boundary. -/
def activatedSprint (sprint : SprintState) (boundary : ℤ) : SprintState :=
  { sprint with lifecycle := .ACTIVE, observedStartAt := some boundary, updatedAt := boundary }

/-- The sprint that ends at its boundary. -/
def endedSprint (sprint : SprintState) (boundary : ℤ) : SprintState :=
  { sprint with lifecycle := .COMPLETED, observedEndAt := some boundary, updatedAt := boundary }

/-- The write set of a boundary leaves the other collections alone. -/
structure LifecycleFrame (w : ScrumCollections) : Prop where
  memberIdentities : w.memberIdentities = []
  memberAvailabilityOverlays : w.memberAvailabilityOverlays = []
  memberBusinessDateConsumption : w.memberBusinessDateConsumption = []
  workItemFactors : w.workItemFactors = []
  semanticCounters : w.semanticCounters = []
  naturalDecisionEvaluations : w.naturalDecisionEvaluations = []

/-- The activation of the items that a sprint of the state takes over. -/
def ActivatesIn (state : LiveTeamState p) (draws : DrawSource) (boundary : ℤ)
    (selected : List Uuid) (w : ScrumCollections) : Prop :=
  Activation p state.aggregate.blueprint boundary state.scrum.memberIdentities draws
    state.scrum.workItems selected w.workItems w.statusVisits w.statusVisitSamples

/-- The sprint spans two consecutive boundaries of the cadence. -/
def CadenceWindow (p : Platform) (blueprint : ResolvedTeamBlueprint) (sprint : SprintState) :
    Prop :=
  ∃ calendar rule,
    BusinessCalendar.fromBlueprint p blueprint.team.timezone blueprint.calendar = .ok calendar ∧
    CadenceRule.create blueprint.scrum.firstBoundary blueprint.scrum.cadenceDays = .ok rule ∧
    cadenceBoundary calendar rule sprint.ordinal = .ok sprint.plannedStartAt ∧
    cadenceBoundary calendar rule (sprint.ordinal + 1) = .ok sprint.plannedEndAt

/-- What happens at a sprint boundary. -/
inductive BoundaryStep (state : LiveTeamState p) (boundary : ℤ) (transition : SprintTransition p) :
    Prop
  | quiet (h : transition = emptyTransition)
  | activates (sprint : SprintState) (draws : DrawSource) (selected : List Uuid)
      (context : TransitionContext p) (hmem : sprint ∈ state.scrum.sprints)
      (hplanned : sprint.lifecycle = .PLANNED) (hstart : sprint.plannedStartAt = boundary)
      (hdraws : seededDrawSource p state.aggregate = .ok draws)
      (hselected : selected = rankedSelection p state.scrum.workItems
        (selectedScopeIds p state.aggregate sprint.id state.scrum.workItems draws))
      (hactivation : ActivatesIn state draws boundary selected
        context.writeSet.toScrumCollections)
      (hframe : LifecycleFrame context.writeSet.toScrumCollections)
      (hvalid : (activatedSprint sprint boundary).Valid)
      (hsprints : context.writeSet.sprints = [activatedSprint sprint boundary])
      (hscope : context.writeSet.sprintScope =
        selected.map (newScopeEntry state sprint.id boundary))
      (hcontext : context.state = state ∧ context.previous = sprint ∧
        context.current = activatedSprint sprint boundary ∧ context.boundary = boundary)
      (h : transition = activationTransition context)
  | rolls (sprint successor : SprintState) (draws : DrawSource) (carryIds backlogIds : List Uuid)
      (context : TransitionContext p) (counter : SemanticCounter)
      (hmem : sprint ∈ state.scrum.sprints)
      (hactive : sprint.lifecycle = .ACTIVE) (hend : sprint.plannedEndAt = boundary)
      (hdraws : seededDrawSource p state.aggregate = .ok draws)
      (hcarry : carryoverIds state sprint.id = .ok carryIds)
      (hbacklog : rankedBacklogIds state successor.id carryIds draws = .ok backlogIds)
      (hactivation : ActivatesIn state draws boundary backlogIds
        context.writeSet.toScrumCollections)
      (hframe : LifecycleFrame context.writeSet.toScrumCollections)
      (hvalid : (endedSprint sprint boundary).Valid)
      (hcounter : counter ∈ state.scrum.semanticCounters ∧
        counter.scope = .sprintOrdinal sprint.teamId)
      (hsuccessor : successor.Valid ∧ successor.lifecycle = .ACTIVE ∧
        successor.teamId = sprint.teamId ∧ successor.ordinal = counter.nextValue ∧
        successor.observedStartAt = some boundary ∧
        CadenceWindow p state.aggregate.blueprint successor)
      (hcall : ∃ claim, JiraSimulator.successor state sprint boundary = .ok (successor, claim))
      (hsprints : context.writeSet.sprints = [endedSprint sprint boundary, successor])
      (hscope : context.writeSet.sprintScope =
        (currentScopeOf state sprint).map (fun entry =>
          { entry with removedAt := some boundary }) ++
        (carryIds ++ backlogIds).map (newScopeEntry state successor.id boundary))
      (hcontext : context.state = state ∧ context.previous = sprint ∧
        context.current = successor ∧ context.boundary = boundary)
      (h : transition = rolloverTransition context)

theorem activatePlannedSprint_eq_ok {state : LiveTeamState p} {sprint : SprintState} {boundary : ℤ}
    {transition : SprintTransition p} (hmem : sprint ∈ state.scrum.sprints)
    (hplanned : sprint.lifecycle = .PLANNED) (hstart : sprint.plannedStartAt = boundary)
    (h : activatePlannedSprint state sprint boundary = .ok transition) :
    BoundaryStep state boundary transition := by
  simp only [activatePlannedSprint, plannedScope, bind_eq_ok, validated_eq_ok, pure_eq_ok,
    SprintState.validate_eq_ok, ScrumStateWriteSet.create_eq_ok] at h
  obtain ⟨draws, hdraws, plan, ⟨results, hresults, scope, hscope, claims, -, rfl⟩,
    activated, ⟨hvalid, rfl⟩, writeSet, hwriteSet, rfl⟩ := h
  have hactivation := activation_of_results hresults
  refine .activates sprint draws (rankedSelection p state.scrum.workItems (selectedScopeIds p
    state.aggregate sprint.id state.scrum.workItems draws)) _ hmem hplanned hstart hdraws rfl ?_ ?_
    hvalid ?_ ?_ ⟨rfl, rfl, rfl, rfl⟩ rfl
  · simpa only [ActivatesIn, hwriteSet] using hactivation
  · simp only [hwriteSet]
    exact ⟨rfl, rfl, rfl, rfl, rfl, rfl⟩
  · simp only [hwriteSet]
    rfl
  · simp only [hwriteSet]
    exact sprintScopeEntries_eq_ok hscope

theorem successor_eq_ok {state : LiveTeamState p} {sprint next : SprintState} {boundary : ℤ}
    {claim : SemanticCounterClaim} (h : successor state sprint boundary = .ok (next, claim)) :
    ∃ counter ∈ state.scrum.semanticCounters, counter.scope = .sprintOrdinal sprint.teamId ∧
      next.Valid ∧ next.lifecycle = .ACTIVE ∧ next.teamId = sprint.teamId ∧
      next.ordinal = counter.nextValue ∧ next.observedStartAt = some boundary ∧
      CadenceWindow p state.aggregate.blueprint next := by
  simp only [successor, bind_eq_ok, validated_eq_ok,
    SprintState.validate_eq_ok, pure_eq_ok, Prod.mk.injEq] at h
  obtain ⟨counter, hcounter, calendar, hcalendar, rule, hrule, id, -, start, hstart, finish,
    hfinish, row, ⟨hvalid, rfl⟩, claim', -, rfl, -⟩ := h
  obtain ⟨hmem, hscope⟩ := mem_of_next hcounter
  exact ⟨counter, hmem, by simpa using hscope, hvalid, rfl, rfl, rfl, rfl,
    calendar, rule, hcalendar, hrule, hstart, hfinish⟩

/-- The steps of a rollover that went through. -/
structure Rolled (state : LiveTeamState p) (sprint successor : SprintState) (boundary : ℤ)
    (draws : DrawSource) (carryIds backlogIds : List Uuid) (results : List ActivatedItem)
    (sprintClaim : SemanticCounterClaim) (claims : List SemanticCounterClaim)
    (context : TransitionContext p) : Prop where
  draws_eq : seededDrawSource p state.aggregate = .ok draws
  successor_eq : JiraSimulator.successor state sprint boundary = .ok (successor, sprintClaim)
  carry_eq : carryoverIds state sprint.id = .ok carryIds
  backlog_eq : rankedBacklogIds state successor.id carryIds draws = .ok backlogIds
  results_eq : activateSelectedWork p state.aggregate boundary state.scrum.memberIdentities
    state.scrum.workItems backlogIds draws = .ok results
  claims_eq : (results.flatMap (·.visits)).mapM (fun visit => visitClaim state visit.workItemId) =
    .ok claims
  valid : (endedSprint sprint boundary).Valid
  rows : context.writeSet.toScrumCollections = {
    workItems := (results.map (·.item)).filter fun item => item.id ∈ backlogIds
    sprints := [endedSprint sprint boundary, successor]
    sprintScope := (currentScopeOf state sprint).map (fun entry =>
        { entry with removedAt := some boundary }) ++
      (carryIds ++ backlogIds).map (newScopeEntry state successor.id boundary)
    statusVisits := results.flatMap (·.visits)
    statusVisitSamples := results.flatMap (·.samples) }
  context_eq : context.state = state ∧ context.previous = sprint ∧ context.current = successor ∧
    context.boundary = boundary ∧ context.claims = sprintClaim :: claims

theorem rollActiveSprint_steps {state : LiveTeamState p} {sprint : SprintState} {boundary : ℤ}
    {transition : SprintTransition p} (h : rollActiveSprint state sprint boundary = .ok transition) :
    ∃ successor draws carryIds backlogIds results sprintClaim claims context,
      Rolled state sprint successor boundary draws carryIds backlogIds results sprintClaim claims
        context ∧ transition = rolloverTransition context := by
  simp only [rollActiveSprint, plannedScope, completedSprint, bind_eq_ok, validated_eq_ok,
    pure_eq_ok, SprintState.validate_eq_ok, ScrumStateWriteSet.create_eq_ok] at h
  obtain ⟨pair, hpair, draws, hdraws, carryIds, hcarry, backlogIds, hbacklog, plan,
    ⟨results, hresults, scope, -, claims, hclaims, rfl⟩, completed, ⟨hvalid, rfl⟩, closed, hclosed,
    successorScope, hscope, writeSet, hwriteSet, rfl⟩ := h
  rw [closedScope_eq_ok hclosed, sprintScopeEntries_eq_ok hscope] at hwriteSet
  exact ⟨pair.1, draws, carryIds, backlogIds, results, pair.2, claims, _,
    ⟨hdraws, hpair, hcarry, hbacklog, hresults, hclaims, hvalid, hwriteSet,
      rfl, rfl, rfl, rfl, rfl⟩, rfl⟩

theorem rollActiveSprint_eq_ok {state : LiveTeamState p} {sprint : SprintState} {boundary : ℤ}
    {transition : SprintTransition p} (hmem : sprint ∈ state.scrum.sprints)
    (hactive : sprint.lifecycle = .ACTIVE) (hend : sprint.plannedEndAt = boundary)
    (h : rollActiveSprint state sprint boundary = .ok transition) :
    BoundaryStep state boundary transition := by
  obtain ⟨next, draws, carryIds, backlogIds, results, sprintClaim, claims, context, hrolled, rfl⟩ :=
    rollActiveSprint_steps h
  obtain ⟨counter, hcounter, hcounterScope, hsuccessor⟩ := successor_eq_ok hrolled.successor_eq
  obtain ⟨hstate, hprevious, hcurrent, hboundary, -⟩ := hrolled.context_eq
  have hactivation := activation_of_results hrolled.results_eq
  refine .rolls sprint next draws carryIds backlogIds context counter hmem hactive hend
    hrolled.draws_eq hrolled.carry_eq hrolled.backlog_eq ?_ ?_ hrolled.valid
    ⟨hcounter, hcounterScope⟩ hsuccessor ⟨_, hrolled.successor_eq⟩ ?_ ?_
    ⟨hstate, hprevious, hcurrent, hboundary⟩ rfl
  · simpa only [ActivatesIn, hrolled.rows] using hactivation
  · rw [hrolled.rows]
    exact ⟨rfl, rfl, rfl, rfl, rfl, rfl⟩
  · rw [hrolled.rows]
  · rw [hrolled.rows]

theorem crossSprintBoundary_eq_ok {state : LiveTeamState p} {boundary : ℤ}
    {transition : SprintTransition p} (h : crossSprintBoundary state boundary = .ok transition) :
    BoundaryStep state boundary transition := by
  unfold crossSprintBoundary at h
  cases hplanned : state.scrum.sprints.find? fun sprint =>
      sprint.lifecycle = .PLANNED && sprint.plannedStartAt = boundary with
  | some sprint =>
    simp only [hplanned] at h
    have hfound := List.find?_some hplanned
    simp only [Bool.and_eq_true, decide_eq_true_eq] at hfound
    exact activatePlannedSprint_eq_ok (List.mem_of_find?_eq_some hplanned) hfound.1 hfound.2 h
  | none =>
    simp only [hplanned] at h
    cases hactive : state.scrum.sprints.find? fun sprint =>
        sprint.lifecycle = .ACTIVE && sprint.plannedEndAt = boundary with
    | some sprint =>
      simp only [hactive] at h
      have hfound := List.find?_some hactive
      simp only [Bool.and_eq_true, decide_eq_true_eq] at hfound
      exact rollActiveSprint_eq_ok (List.mem_of_find?_eq_some hactive) hfound.1 hfound.2 h
    | none =>
      simp only [hactive, Except.ok.injEq] at h
      exact .quiet h.symm

end JiraSimulator
