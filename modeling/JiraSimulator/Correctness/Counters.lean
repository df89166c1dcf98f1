import JiraSimulator.Correctness.ItemRuns

/-!
# Counters of the visits and the sprints

The counter of an item stands past the ordinals of its visits, since a commit that writes a new
visit claims its ordinal.  So a visit that takes its ordinal from the counter is a new row.

* `ordinalsCounted_of_reachable`: the counters of every reachable store are past its visits.
* `OrdinalsCounted.not_mem_of_counter`: the visit at the counter is new.
* `sprintsCounted_of_reachable`, `SprintsCounted.not_mem_of_counter`: the same for the sprints.
-/

namespace JiraSimulator

open Library Library.Outcome Library.Transition ScrumCollections

variable {p : Platform}

/-- Every visit has an ordinal below the counter of its item. -/
def OrdinalsCounted (c : ScrumCollections) : Prop :=
  ∀ visit ∈ c.statusVisits, ∃ value,
    counterAt c.semanticCounters (.visitOrdinal visit.workItemId) = some value ∧
      visit.ordinal < value

theorem counterAt_of_mem {c : ScrumCollections} (hc : c.Consistent p) {counter : SemanticCounter}
    (hcounter : counter ∈ c.semanticCounters) :
    counterAt c.semanticCounters counter.scope = some counter.nextValue := by
  unfold counterAt
  rw [(Keyed.lookup_eq_some (·.scope) hc.counters_nodup).mpr ⟨hcounter, rfl⟩]
  rfl

/-- The visit of an item at its counter is not a visit of the state. -/
theorem OrdinalsCounted.not_mem_of_counter {c : ScrumCollections} (h : OrdinalsCounted c)
    (hc : c.Consistent p) {counter : SemanticCounter} (hcounter : counter ∈ c.semanticCounters)
    {item : Uuid} (hscope : counter.scope = .visitOrdinal item) :
    Uuid.visit item counter.nextValue ∉ c.statusVisits.map (·.id) := by
  intro hmem
  obtain ⟨visit, hvisit, hid⟩ := List.mem_map.mp hmem
  have hpath := (hc.visit_valid hvisit).id.symm.trans hid
  rw [Uuid.visit.injEq] at hpath
  obtain ⟨value, hvalue, hlt⟩ := h visit hvisit
  rw [hpath.1, ← hscope, counterAt_of_mem hc hcounter, Option.some.injEq] at hvalue
  omega

theorem visitCounter_eq_ok {state : LiveTeamState p} {item : Uuid} {counter : SemanticCounter}
    (h : visitCounter state item = .ok counter) :
    counter ∈ state.scrum.semanticCounters ∧ counter.scope = .visitOrdinal item := by
  obtain ⟨hmem, hscope⟩ := mem_of_next h
  exact ⟨hmem, of_decide_eq_true hscope⟩

/-! ### Runs -/

/-- An activated item enters its first visit with no labor credited. -/
theorem activateItem_first {blueprint : ResolvedTeamBlueprint} {startedAt : ℤ}
    {members : List MemberIdentity} {draws : DrawSource} {item : WorkItemState}
    {activated : ActivatedItem}
    (h : activateItem p blueprint startedAt members draws item = .ok activated) :
    ∀ visit ∈ activated.visits, visit.ordinal = 0 ∧ visit.creditedLaborMicroseconds = 0 ∧
      visit.lifecycle = .OPEN ∧ visit.enteredAt = startedAt ∧ visit.pauseMicroseconds = 0 := by
  obtain ⟨route, -, ⟨terminal, -, -, -, -, rfl⟩ | ⟨step, member, visit, sample, -, -, -, henters,
    heq⟩⟩ := activateItem_eq_ok h
  · simp
  · subst heq
    intro v hv
    rw [List.mem_singleton] at hv
    subst hv
    exact ⟨henters.ordinal_eq, henters.credited_eq, henters.lifecycle_eq, henters.enteredAt_eq,
      henters.pause_eq⟩

theorem lt_nextVisitOrdinal {visits : List StatusVisitState} {item : Uuid}
    (hzero : ∀ visit ∈ visits, visit.ordinal = 0) {visit : StatusVisitState} (hvisit : visit ∈ visits)
    (hitem : visit.workItemId = item) : visit.ordinal < nextVisitOrdinal visits item := by
  unfold nextVisitOrdinal
  cases hfind : visits.reverse.find? (fun visit => visit.workItemId = item) with
  | none =>
    have hnone := List.find?_eq_none.mp hfind visit (List.mem_reverse.mpr hvisit)
    simp [hitem] at hnone
  | some last =>
    have hlast := hzero visit hvisit
    dsimp only
    omega

theorem Bootstrapped.ordinalsCounted {start : TeamStart} {draws : DrawSource}
    {context : BootstrapContext} {picked : List Uuid} {initial : ScrumStateWriteSet p}
    {store : TeamStore p} (h : Bootstrapped start draws context picked initial store) :
    OrdinalsCounted store.scrum.toScrumCollections := by
  intro visit hvisit
  have hcomplete := store.scrum.complete
  obtain ⟨work, hwork, hid⟩ := List.mem_map.mp (hcomplete.visitWork visit hvisit)
  obtain ⟨counter, hcounter, hscope, hnext⟩ := h.initialRows.visitCounters work
    ((h.mem_rows Collection.workItems).mp hwork)
  have hat := counterAt_of_mem hcomplete.toConsistent
    ((h.mem_rows Collection.counters).mpr hcounter)
  rw [hscope, hid] at hat
  refine ⟨_, hat, ?_⟩
  rw [hnext, hid]
  refine lt_nextVisitOrdinal ?_ ((h.mem_rows Collection.statusVisits).mp hvisit) rfl
  intro row hrow
  obtain ⟨item, -, -, activated, hactivated, hmem⟩ := (h.initialRows.visits row).mp hrow
  exact (activateItem_first hactivated row hmem).1

/-- A commit claims the ordinals of its new visits. -/
theorem Committed.ordinalsCounted {store store' : TeamStore p}
    {command : AuthoritativeTickSliceCommit p} (h : Committed store command store')
    (hcounted : OrdinalsCounted store.scrum.toScrumCollections) :
    OrdinalsCounted store'.scrum.toScrumCollections := by
  intro visit hvisit
  by_cases hold : visit.id ∈ store.scrum.statusVisits.map (·.id)
  · -- the row was written before, with the same ordinal
    obtain ⟨old, hmem, hid⟩ := List.mem_map.mp hold
    have hpath := (store'.scrum.complete.toConsistent.visit_valid hvisit).id
    rw [← hid, (store.scrum.complete.toConsistent.visit_valid hmem).id, Uuid.visit.injEq] at hpath
    obtain ⟨value, hvalue, hlt⟩ := hcounted old hmem
    obtain ⟨value', hvalue', hle, -⟩ := h.counters _ value hvalue
    rw [hpath.1] at hvalue'
    exact ⟨value', hvalue', by omega⟩
  · -- a new row is an allocation of the commit
    have hwritten : visit ∈ command.state.statusVisits :=
      ((h.mem_rows Collection.statusVisits fun _ _ _ => rfl).mp hvisit).resolve_right
        fun hstays => hold (List.mem_map_of_mem hstays.1)
    have hnew : (SemanticCounterScope.visitOrdinal visit.workItemId, visit.ordinal) ∈
        newAllocations store.scrum.toScrumCollections command.state.toScrumCollections := by
      refine List.mem_append_right _ (List.mem_map.mpr ⟨visit, ?_, rfl⟩)
      exact List.mem_filter.mpr ⟨hwritten, decide_eq_true hold⟩
    exact h.allocations _ hnew rfl

/-- The counter of the sprints is past every new sprint. -/
theorem Committed.lt_sprintCounter {store store' : TeamStore p}
    {command : AuthoritativeTickSliceCommit p} (h : Committed store command store')
    {sprint : SprintState} (hsprint : sprint ∈ command.state.sprints)
    (hnew : sprint.id ∉ store.scrum.sprints.map (·.id)) :
    ∃ value', counterAt store'.scrum.semanticCounters (.sprintOrdinal sprint.teamId) = some value' ∧
      sprint.ordinal < value' := by
  refine h.allocations (.sprintOrdinal sprint.teamId, sprint.ordinal) ?_ rfl
  refine List.mem_append_left _ (List.mem_append_right _ (List.mem_map.mpr ⟨sprint, ?_, rfl⟩))
  exact List.mem_filter.mpr ⟨hsprint, decide_eq_true hnew⟩

/-- The counters of a reachable store are past its visits. -/
theorem ordinalsCounted_of_reachable {store : TeamStore p} (h : (teamRuns p).Reachable store) :
    OrdinalsCounted store.scrum.toScrumCollections := by
  refine rows_induction (I := fun _ scrum => OrdinalsCounted scrum.toScrumCollections) h ?_ ?_
  · exact fun _ _ _ _ _ _ hboot => hboot.ordinalsCounted
  · exact fun _ _ _ _ _ hcounted _ _ hcommitted => hcommitted.ordinalsCounted hcounted

/-! ### Sprints -/

/-- Every sprint has an ordinal below the counter of its team. -/
def SprintsCounted (c : ScrumCollections) : Prop :=
  ∀ sprint ∈ c.sprints, ∃ value,
    counterAt c.semanticCounters (.sprintOrdinal sprint.teamId) = some value ∧
      sprint.ordinal < value

/-- The sprint of a team at its counter is not a sprint of the state. -/
theorem SprintsCounted.not_mem_of_counter {c : ScrumCollections} (h : SprintsCounted c)
    (hc : c.Consistent p) {counter : SemanticCounter} (hcounter : counter ∈ c.semanticCounters)
    {team : Uuid} (hscope : counter.scope = .sprintOrdinal team) :
    Uuid.sprint team counter.nextValue ∉ c.sprints.map (·.id) := by
  intro hmem
  obtain ⟨sprint, hsprint, hid⟩ := List.mem_map.mp hmem
  rw [(hc.sprint_valid hsprint).id, Uuid.sprint.injEq] at hid
  obtain ⟨value, hvalue, hlt⟩ := h sprint hsprint
  have hat := counterAt_of_mem hc hcounter
  rw [hid.1, ← hscope, hat, Option.some.injEq] at hvalue
  omega

theorem Bootstrapped.sprintsCounted {start : TeamStart} {draws : DrawSource}
    {context : BootstrapContext} {picked : List Uuid} {initial : ScrumStateWriteSet p}
    {store : TeamStore p} (h : Bootstrapped start draws context picked initial store) :
    SprintsCounted store.scrum.toScrumCollections := by
  intro sprint hsprint
  rw [h.mem_rows Collection.sprints] at hsprint
  change sprint ∈ initial.sprints at hsprint
  rw [h.initialRows.sprints, List.mem_singleton] at hsprint
  obtain ⟨counter, hcounter, hscope, hnext⟩ := h.initialRows.sprintCounter
  have hat := counterAt_of_mem store.scrum.complete.toConsistent
    ((h.mem_rows Collection.counters).mpr hcounter)
  obtain ⟨-, hteam, -⟩ := initialSprint_eq_ok h.initialRows.sprint_eq
  rw [hsprint, hteam, ← hscope]
  exact ⟨_, hat, by omega⟩

/-- A commit claims the ordinals of its new sprints. -/
theorem Committed.sprintsCounted {store store' : TeamStore p}
    {command : AuthoritativeTickSliceCommit p} (h : Committed store command store')
    (hcounted : SprintsCounted store.scrum.toScrumCollections) :
    SprintsCounted store'.scrum.toScrumCollections := by
  intro sprint hsprint
  by_cases hold : sprint.id ∈ store.scrum.sprints.map (·.id)
  · obtain ⟨old, hmem, hid⟩ := List.mem_map.mp hold
    have hpath := (store'.scrum.complete.toConsistent.sprint_valid hsprint).id
    rw [← hid, (store.scrum.complete.toConsistent.sprint_valid hmem).id,
      Uuid.sprint.injEq] at hpath
    obtain ⟨value, hvalue, hlt⟩ := hcounted old hmem
    obtain ⟨value', hvalue', hle, -⟩ := h.counters _ value hvalue
    rw [hpath.1] at hvalue'
    exact ⟨value', hvalue', by omega⟩
  · have hwritten : sprint ∈ command.state.sprints :=
      ((h.mem_rows Collection.sprints fun _ _ _ => rfl).mp hsprint).resolve_right
        fun hstays => hold (List.mem_map_of_mem hstays.1)
    exact h.lt_sprintCounter hwritten hold

/-- The sprint counter of a reachable store is past its sprints. -/
theorem sprintsCounted_of_reachable {store : TeamStore p} (h : (teamRuns p).Reachable store) :
    SprintsCounted store.scrum.toScrumCollections := by
  refine rows_induction (I := fun _ scrum => SprintsCounted scrum.toScrumCollections) h ?_ ?_
  · exact fun _ _ _ _ _ _ hboot => hboot.sprintsCounted
  · exact fun _ _ _ _ _ hcounted _ _ hcommitted => hcommitted.sprintsCounted hcounted

end JiraSimulator
