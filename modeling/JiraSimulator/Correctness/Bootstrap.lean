import JiraSimulator.Correctness.Steps

/-!
# The bootstrap of a team

The store that a new team starts from: its members, its backlog and the sprint that contains the
start, whose items are already activated when the sprint has begun.
-/

namespace JiraSimulator

open Library Library.Outcome Library.Transition ScrumCollections

variable {p : Platform}

/-! ### The backlog -/

/-- An item of the initial backlog, in the first status of its route. -/
structure InitialItem (aggregate : PersistedTeamAggregate) (startedAt : ℤ) (item : WorkItemState) :
    Prop where
  valid : item.Valid
  teamId : item.teamId = aggregate.team.id
  runId : item.runId = aggregate.runtime.runId
  lifecycle : item.lifecycle = .BACKLOG
  createdAt : item.createdAt = startedAt
  status : ∃ route first, routeForIssueType aggregate.blueprint item.issueType = .ok route ∧
    route.steps[0]? = some first ∧ item.currentStatusKey = first.statusKey

theorem backlogItem_eq_ok {aggregate : PersistedTeamAggregate} {startedAt : ℤ} {draws : DrawSource}
    {sequence : ℕ} {item : WorkItemState}
    (h : backlogItem p aggregate startedAt draws sequence = .ok item) :
    InitialItem aggregate startedAt item ∧
      item.id = .item aggregate.team.id .INITIAL_BACKLOG sequence := by
  simp only [backlogItem, bind_eq_ok, itemRngId_eq_ok, getIndex_eq_ok, validated_eq_ok,
    WorkItemState.validate_eq_ok] at h
  obtain ⟨id, ⟨-, rfl⟩, issueType, -, storyPoints, -, priorityText, -, priority, -, route, hroute,
    first, hfirst, hvalid, rfl⟩ := h
  exact ⟨⟨hvalid, rfl, rfl, rfl, rfl, route, first, hroute, hfirst, rfl⟩, rfl⟩

theorem rankedBacklog_eq_ok {aggregate : PersistedTeamAggregate} {startedAt : ℤ}
    {draws : DrawSource} {items : List WorkItemState}
    (h : rankedBacklog p aggregate startedAt draws = .ok items) :
    ∀ item ∈ items, InitialItem aggregate startedAt item := by
  intro item hitem
  obtain ⟨sequence, -, hsequence⟩ := exists_of_mem_mapM h hitem
  exact (backlogItem_eq_ok hsequence).1

theorem rankedBacklog_nodup {aggregate : PersistedTeamAggregate} {startedAt : ℤ}
    {draws : DrawSource} {items : List WorkItemState}
    (h : rankedBacklog p aggregate startedAt draws = .ok items) : (items.map (·.id)).Nodup := by
  rw [map_eq_map_of_mapM h fun sequence item hitem => (backlogItem_eq_ok hitem).2]
  refine List.nodup_range.map fun a b hab => ?_
  simpa using hab

/-! ### Counters -/

theorem counterRow_eq_ok {aggregate : PersistedTeamAggregate} {scope : SemanticCounterScope}
    {nextValue : ℕ} {row : SemanticCounter}
    (h : counterRow aggregate scope nextValue = .ok row) :
    row.scope = scope ∧ row.nextValue = nextValue := by
  simp only [counterRow, validated_eq_ok] at h
  obtain ⟨-, rfl⟩ := h
  exact ⟨rfl, rfl⟩

/-- Every item has a counter for its visits. -/
theorem initialCounters_visit {aggregate : PersistedTeamAggregate} {members : List MemberIdentity}
    {workItems : List WorkItemState} {visits : List StatusVisitState}
    {counters : List SemanticCounter}
    (h : initialCounters aggregate members workItems visits = .ok counters) {item : WorkItemState}
    (hitem : item ∈ workItems) :
    ∃ counter ∈ counters, counter.scope = .visitOrdinal item.id ∧
      counter.nextValue = nextVisitOrdinal visits item.id := by
  simp only [initialCounters, bind_eq_ok, pure_eq_ok] at h
  obtain ⟨visitRows, hvisits, cancellations, -, absences, -, rfl⟩ := h
  obtain ⟨counter, hcounter, hrow⟩ := exists_of_mem_of_mapM hvisits hitem
  exact ⟨counter, by simp [hcounter], counterRow_eq_ok hrow⟩

/-! ### The initial rows -/

/-- The scope row of an item of the first sprint. -/
def initialScopeEntry (aggregate : PersistedTeamAggregate) (sprintId : Uuid) (addedAt : ℤ)
    (item : Uuid) : SprintScopeEntry where
  id := .sprintScope sprintId item
  teamId := aggregate.team.id
  runId := aggregate.runtime.runId
  sprintId := sprintId
  workItemId := item
  addedAt := addedAt
  removedAt := none

/-- The first Scrum state: nothing is selected for a sprint that has not begun. -/
structure InitialRows (p : Platform) (aggregate : PersistedTeamAggregate) (startedAt : ℤ)
    (draws : DrawSource) (context : BootstrapContext) (picked : List Uuid)
    (w : ScrumCollections) : Prop where
  members : w.memberIdentities = context.members
  members_eq : memberIdentities aggregate = .ok context.members
  items_eq : rankedBacklog p aggregate startedAt draws = .ok context.workItems
  sprint_eq : initialSprint p aggregate startedAt = .ok context.sprint
  sprints : w.sprints = [context.sprint]
  planned : context.sprint.lifecycle = .PLANNED → picked = []
  picked_subset : picked ⊆ context.workItems.map (·.id)
  workItems : ∀ row, row ∈ w.workItems ↔
    (∃ item ∈ context.workItems, item.id ∈ picked ∧ ∃ activated, activateItem p
      aggregate.blueprint startedAt context.members draws item = .ok activated ∧
      row = activated.item) ∨ (row ∈ context.workItems ∧ row.id ∉ picked)
  visits : ∀ row, row ∈ w.statusVisits ↔ ∃ item ∈ context.workItems, item.id ∈ picked ∧
    ∃ activated, activateItem p aggregate.blueprint startedAt context.members draws item =
      .ok activated ∧ row ∈ activated.visits
  samples : ∀ row, row ∈ w.statusVisitSamples ↔ ∃ item ∈ context.workItems, item.id ∈ picked ∧
    ∃ activated, activateItem p aggregate.blueprint startedAt context.members draws item =
      .ok activated ∧ row ∈ activated.samples
  scope : w.sprintScope =
    (Ordering.sortOn (fun item => [(p.uuidInt item : ℤ)]) picked).map
      (initialScopeEntry aggregate context.sprint.id startedAt)
  overlays : w.memberAvailabilityOverlays = []
  consumption : w.memberBusinessDateConsumption = []
  factors : w.workItemFactors = []
  evaluations : w.naturalDecisionEvaluations = []
  visitCounters : ∀ item ∈ w.workItems, ∃ counter ∈ w.semanticCounters,
    counter.scope = .visitOrdinal item.id ∧
      counter.nextValue = nextVisitOrdinal w.statusVisits item.id
  sprintCounter : ∃ counter ∈ w.semanticCounters,
    counter.scope = .sprintOrdinal aggregate.team.id ∧
      counter.nextValue = context.sprint.ordinal + 1

theorem initialSprint_eq_ok {aggregate : PersistedTeamAggregate} {startedAt : ℤ}
    {sprint : SprintState} (h : initialSprint p aggregate startedAt = .ok sprint) :
    sprint.Valid ∧ sprint.teamId = aggregate.team.id ∧
      (sprint.lifecycle = .PLANNED ∨
        (sprint.lifecycle = .ACTIVE ∧ sprint.observedStartAt = some startedAt)) := by
  simp only [initialSprint, bind_eq_ok, sprintRngId_eq_ok, validated_eq_ok,
    SprintState.validate_eq_ok] at h
  obtain ⟨calendar, -, cadence, -, ordinal, -, start, -, finish, -, id, -, hvalid, rfl⟩ := h
  refine ⟨hvalid, rfl, ?_⟩
  by_cases hbegun : start ≤ startedAt
  · exact .inr ⟨by simp [hbegun], by simp [hbegun]⟩
  · exact .inl (by simp [hbegun])

theorem sprintCounter_eq_ok {aggregate : PersistedTeamAggregate} {sprint : SprintState}
    {row : SemanticCounter} (h : sprintCounter aggregate sprint = .ok row) :
    row.scope = .sprintOrdinal aggregate.team.id ∧ row.nextValue = sprint.ordinal + 1 :=
  counterRow_eq_ok h

theorem buildInitialScrumState_eq_ok {aggregate : PersistedTeamAggregate} {startedAt : ℤ}
    {draws : DrawSource} {w : ScrumStateWriteSet p}
    (h : buildInitialScrumState aggregate startedAt draws = .ok w) :
    ∃ context picked, InitialRows p aggregate startedAt draws context picked
      w.toScrumCollections := by
  simp only [buildInitialScrumState, bootstrapContext, bind_eq_ok, pure_eq_ok] at h
  obtain ⟨context, ⟨members, hmembers, items, hitems, sprint, hsprint, rfl⟩, h⟩ := h
  refine ⟨{ aggregate, startedAt, members, workItems := items, sprint }, ?_⟩
  -- a sprint that starts later is planned and activates nothing
  by_cases hplanned : sprint.lifecycle = .PLANNED
  · rw [if_pos hplanned] at h
    simp only [plannedInitialState, bind_eq_ok, ScrumStateWriteSet.create_eq_ok] at h
    obtain ⟨sprintRow, hsprintRow, counters, hcounters, hw⟩ := h
    rw [hw]
    refine ⟨[], rfl, hmembers, hitems, hsprint, rfl, fun _ => rfl, by simp, by simp, by simp,
      by simp, rfl, rfl, rfl, rfl, rfl, fun item hitem => ?_, ?_⟩
    · obtain ⟨counter, hcounter, hscope⟩ := initialCounters_visit hcounters hitem
      exact ⟨counter, List.mem_cons_of_mem _ hcounter, hscope⟩
    · exact ⟨sprintRow, List.mem_cons_self, sprintCounter_eq_ok hsprintRow⟩
  · rw [if_neg hplanned] at h
    simp only [activeInitialState, bind_eq_ok, ScrumStateWriteSet.create_eq_ok] at h
    obtain ⟨results, hresults, scope, hscope, sprintRow, hsprintRow, counters, hcounters, hw⟩ := h
    have hactivation := activation_of_results hresults
    have hall := activateSelectedWork_eq_ok hresults
    rw [hw]
    refine ⟨_, rfl, hmembers, hitems, hsprint, rfl, fun h => absurd h hplanned, ?_, ?_,
      hactivation.visits, hactivation.samples, ?_, rfl, rfl, rfl, rfl, fun item hitem => ?_, ?_⟩
    · intro id hid
      have hmem := mem_takeWithinCapacity hid
      rw [List.mem_map] at hmem ⊢
      simpa only [Ordering.mem_sortOn] using hmem
    · intro row
      rw [List.mem_map]
      constructor
      · rintro ⟨result, hresult, rfl⟩
        obtain ⟨item, hitem, ⟨hpicked, hactivate⟩ | ⟨hnot, rfl⟩⟩ := forall₂_exists_left hall hresult
        · exact .inl ⟨item, hitem, hpicked, result, hactivate, rfl⟩
        · exact .inr ⟨hitem, hnot⟩
      · -- a picked item is activated, the others stay as they are
        rintro (⟨item, hitem, hpicked, activated, hactivate, rfl⟩ | ⟨hitem, hnot⟩)
        · obtain ⟨result, hresult, ⟨-, hactivate'⟩ | ⟨hnot, -⟩⟩ := forall₂_exists_right hall hitem
          · rw [hactivate] at hactivate'
            cases hactivate'
            exact ⟨activated, hresult, rfl⟩
          · exact absurd hpicked hnot
        · obtain ⟨result, hresult, ⟨hpicked, -⟩ | ⟨-, rfl⟩⟩ := forall₂_exists_right hall hitem
          · exact absurd hpicked hnot
          · exact ⟨_, hresult, rfl⟩
    · refine mapM_eq_map hscope fun item entry hentry => ?_
      simp only [scopeEntry, validated_eq_ok] at hentry
      exact hentry.2.symm
    · obtain ⟨counter, hcounter, hscope⟩ := initialCounters_visit hcounters hitem
      exact ⟨counter, List.mem_cons_of_mem _ hcounter, hscope⟩
    · exact ⟨sprintRow, List.mem_cons_self, sprintCounter_eq_ok hsprintRow⟩

/-! ### The bootstrapped store -/

/-- The aggregate of a team that has just been created. -/
abbrev TeamStart.aggregate (start : TeamStart) : PersistedTeamAggregate :=
  newAggregate start.idempotencyKey start.blueprint start.requestedAt

/-- The store after the bootstrap. -/
structure Bootstrapped (start : TeamStart) (draws : DrawSource) (context : BootstrapContext)
    (picked : List Uuid) (initial : ScrumStateWriteSet p) (store : TeamStore p) : Prop where
  draws_eq : seededDrawSource p start.aggregate = .ok draws
  initialRows : InitialRows p start.aggregate start.startedAt draws context picked
    initial.toScrumCollections
  aggregate : store.aggregate =
    { start.aggregate with runtime := runningRuntime start.aggregate start.startedAt }
  scrum : store.scrum.toScrumCollections = initial.toScrumCollections.sorted p
  loaded : store.Loaded
  provisioned : ∃ provisioning, composeInitialJiraProvisioning store.state = .ok provisioning ∧
    appendDrafts (·.semanticKey) [] provisioning.projectionIntents = .ok store.projection
  activity : store.activity = []
  groundTruth : store.groundTruth = []

theorem ScrumCollections.empty_updateWith {w : ScrumCollections} (hw : w.Consistent p) :
    (({} : ScrumCollections).updateWith w) = w :=
  ext_rows fun col => by
    rw [col.rows_updateWith, col.rows_empty]
    exact Keyed.ofList_of_nodup _ (col.nodup hw)

theorem bootstrap_eq_ok {start : TeamStart} {store : TeamStore p}
    (h : ensureBootstrapped (createdStore p start) start.startedAt = .ok store) :
    ∃ draws context picked, ∃ initial : ScrumStateWriteSet p,
      Bootstrapped start draws context picked initial store := by
  simp only [ensureBootstrapped, TeamStore.load, createdStore, newAggregate, ne_eq,
    bootstrappedStore, appendProjectionIntents, bind_eq_ok, pure_eq_ok] at h
  obtain ⟨state, ⟨scrum, hscrum, rfl⟩, h⟩ := h
  simp only [not_true_eq_false, if_false, bind_eq_ok, exists_unit, pure_eq_ok] at h
  obtain ⟨bootstrapped, ⟨draws, hdraws, initial, hinitial, rows, hrows, rfl⟩, provisioning,
    hprovisioning, -, -, projection, hprojection, rfl⟩ := h
  obtain ⟨context, picked, hrowsSpec⟩ := buildInitialScrumState_eq_ok hinitial
  have hempty : scrum.toScrumCollections = {} := (loadSnapshot_eq_ok.mp hscrum).1
  refine ⟨draws, context, picked, initial, hdraws, hrowsSpec, rfl, ?_, ⟨_, hrows⟩,
    ⟨provisioning, hprovisioning, hprojection⟩, rfl, rfl⟩
  rw [(loadSnapshot_eq_ok.mp hrows).1, hempty, empty_updateWith initial.consistent]

theorem Bootstrapped.mem_rows {start : TeamStart} {draws : DrawSource}
    {context : BootstrapContext} {picked : List Uuid} {initial : ScrumStateWriteSet p}
    {store : TeamStore p} (h : Bootstrapped start draws context picked initial store)
    {α κ : Type} [DecidableEq κ] (col : Collection α κ) {a : α} :
    a ∈ col.rows store.scrum.toScrumCollections ↔ a ∈ col.rows initial.toScrumCollections := by
  rw [h.scrum, col.mem_sorted]

end JiraSimulator
