import JiraSimulator.Correctness.ItemMoves

/-!
# The items of a run

Every commit moves every item by the moves of its kind, so an invariant of single items holds in
every reachable store when the moves keep it.
* `PlannedFirst.of_reachable`: while a sprint is planned, no work has begun.
* `items_induction`: the rule for invariants of the items of a run.
-/

namespace JiraSimulator

open Library Library.Outcome Library.Transition ScrumCollections

variable {p : Platform}

/-! ### Before the first sprint -/

/-- A planned sprint is the only one, and no work has begun. -/
def PlannedFirst (c : ScrumCollections) : Prop :=
  ∀ sprint ∈ c.sprints, sprint.lifecycle = .PLANNED → (∀ s ∈ c.sprints, s = sprint) ∧
    (∀ work ∈ c.workItems, (c.viewOf work).Untouched) ∧ c.sprintScope = []

/-- The sprints and the scope rows stay through a tick. -/
theorem Committed.tick_frame {store store' : TeamStore p}
    {command : AuthoritativeTickSliceCommit p} {advance : RiskAdvance p} {draws : DrawSource}
    {outcome : SegmentsOutcome} {finish : StatusVisitState → FinishedVisit}
    (h : Committed store command store') (hrun : TickRun store.state draws advance outcome finish)
    (hassembled : Assembled command.liveSlice advance command) :
    (∀ s, s ∈ store'.scrum.sprints ↔ s ∈ store.scrum.sprints) ∧
      ∀ e, e ∈ store'.scrum.sprintScope ↔ e ∈ store.scrum.sprintScope := by
  have hrules := evaluateDueRisks_working hrun.risks hrun.working
  have hframe : RiskFrame store.scrum.toScrumCollections
      advance.state.scrum.toScrumCollections :=
    riskSteps_induction (motive := fun w => RiskFrame store.scrum.toScrumCollections
      w.scrum.toScrumCollections) hrules (RiskFrame.refl _)
      fun _ _ _ _ hw _ hstep _ => hw.trans hstep
  constructor
  · intro s
    rw [show s ∈ store'.scrum.sprints ↔ _ from
      h.mem_tick Collection.sprints hrun.working hassembled (fun _ _ _ => rfl)]
    simp [progressRows, hframe.sprints]
  · intro e
    rw [show e ∈ store'.scrum.sprintScope ↔ _ from
      h.mem_tick Collection.sprintScope hrun.working hassembled (fun _ _ _ => rfl)]
    simp [progressRows, hframe.sprintScope]

/-- The items after a tick of a state in which no work has begun. -/
theorem tick_untouched {store store' : TeamStore p} {command : AuthoritativeTickSliceCommit p}
    {advance : RiskAdvance p} {draws : DrawSource} {outcome : SegmentsOutcome}
    {finish : StatusVisitState → FinishedVisit} (h : Committed store command store')
    (hrun : TickRun store.state draws advance outcome finish)
    (hassembled : Assembled command.liveSlice advance command)
    (hbefore : ∀ work ∈ store.scrum.workItems, (store.scrum.viewOf work).Untouched) :
    ∀ work' ∈ store'.scrum.workItems, (store'.scrum.viewOf work').Untouched := by
  intro work' hwork'
  obtain ⟨work, hwork, -, mid, hmoves, hmove⟩ := tick_itemMoves h hrun hassembled hwork'
  have hmid := hmoves.untouched (hbefore work hwork)
  rw [hmove.untouched (hmid ▸ hbefore work hwork), hmid]
  exact hbefore work hwork

/-- A command without rows leaves every item alone. -/
theorem Committed.viewOf_of_empty {store store' : TeamStore p}
    {command : AuthoritativeTickSliceCommit p} (h : Committed store command store')
    (hempty : command.state.toScrumCollections = {}) (work : WorkItemState) :
    store'.scrum.viewOf work = store.scrum.viewOf work := by
  refine ScrumCollections.viewOf_eq (Set.ext fun visit => ?_)
  exact and_congr_left fun _ =>
    h.mem_of_empty Collection.statusVisits (fun _ _ _ => rfl) hempty

theorem Committed.plannedFirst_of_empty {store store' : TeamStore p}
    {command : AuthoritativeTickSliceCommit p} (h : Committed store command store')
    (hempty : command.state.toScrumCollections = {})
    (hplanned : PlannedFirst store.scrum.toScrumCollections) :
    PlannedFirst store'.scrum.toScrumCollections := by
  have hsprints := fun s => h.mem_of_empty Collection.sprints (a := s) (fun _ _ _ => rfl) hempty
  intro sprint hsprint hlifecycle
  obtain ⟨honly, huntouched, hnone⟩ := hplanned sprint ((hsprints sprint).mp hsprint) hlifecycle
  refine ⟨fun s hs => honly s ((hsprints s).mp hs), fun work hwork => ?_, ?_⟩
  · rw [h.viewOf_of_empty hempty]
    exact huntouched work
      ((h.mem_of_empty Collection.workItems (fun _ _ _ => rfl) hempty).mp hwork)
  · refine List.eq_nil_iff_forall_not_mem.mpr fun entry hentry => ?_
    have hentry : entry ∈ store.scrum.sprintScope :=
      (h.mem_of_empty Collection.sprintScope (fun _ _ _ => rfl) hempty).mp hentry
    rw [hnone] at hentry
    cases hentry

theorem Bootstrapped.plannedFirst {start : TeamStart} {draws : DrawSource}
    {context : BootstrapContext} {picked : List Uuid} {initial : ScrumStateWriteSet p}
    {store : TeamStore p} (h : Bootstrapped start draws context picked initial store) :
    PlannedFirst store.scrum.toScrumCollections := by
  intro sprint hsprint hplanned
  have hrows := h.initialRows
  have honly : ∀ s ∈ store.scrum.sprints, s = context.sprint := by
    intro s hs
    have hs := (h.mem_rows Collection.sprints).mp hs
    simpa [hrows.sprints] using hs
  obtain rfl := honly sprint hsprint
  have hpicked := hrows.planned hplanned
  refine ⟨honly, fun work hwork => ⟨?_, ?_⟩, ?_⟩
  · rcases (hrows.workItems work).mp ((h.mem_rows Collection.workItems).mp hwork) with
      ⟨item, -, hitem, -⟩ | ⟨hmem, -⟩
    · simp [hpicked] at hitem
    · exact (rankedBacklog_eq_ok hrows.items_eq work hmem).lifecycle
  · refine Set.eq_empty_iff_forall_notMem.mpr fun visit hvisit => ?_
    obtain ⟨item, -, hitem, -⟩ :=
      (hrows.visits visit).mp ((h.mem_rows Collection.statusVisits).mp hvisit.1)
    simp [hpicked] at hitem
  · refine List.eq_nil_iff_forall_not_mem.mpr fun entry hentry => ?_
    have hentry := (h.mem_rows Collection.sprintScope).mp hentry
    simp [hrows.scope, hpicked, Ordering.sortOn] at hentry

/-- No sprint is planned after a boundary at which something happens. -/
theorem BoundaryStep.not_planned {state : LiveTeamState p} {boundary : ℤ}
    {transition : SprintTransition p} (h : BoundaryStep state boundary transition)
    (hplanned : PlannedFirst state.scrum.toScrumCollections) (hne : transition ≠ emptyTransition)
    {sprint : SprintState} (hsprint : sprint ∈ transition.state.sprints ∨
      (sprint ∈ state.scrum.sprints ∧ sprint.id ∉ transition.state.sprints.map (·.id))) :
    sprint.lifecycle ≠ .PLANNED := by
  intro hlifecycle
  cases h with
  | quiet h => exact hne h
  | activates first draws selected context hmem hfirst _ _ _ _ _ _ hsprints _ _ h =>
    have hstate : transition.state.sprints = [activatedSprint first boundary] := by
      rw [h]
      exact hsprints
    rw [hstate] at hsprint
    rcases hsprint with hnew | ⟨hold, hid⟩
    · rw [List.mem_singleton.mp hnew] at hlifecycle
      cases hlifecycle
    · rw [(hplanned first hmem hfirst).1 sprint hold] at hid
      simp [activatedSprint] at hid
  | rolls ended successor draws carryIds backlogIds context counter hmem hactive _ _ _ _ _ _ _ _
      hsuccessor _ hsprints _ _ h =>
    have hstate : transition.state.sprints = [endedSprint ended boundary, successor] := by
      rw [h]
      exact hsprints
    rw [hstate] at hsprint
    rcases hsprint with hnew | ⟨hold, -⟩
    · rcases List.mem_pair.mp hnew with rfl | rfl
      · cases hlifecycle
      · rw [hsuccessor.2.1] at hlifecycle
        cases hlifecycle
    · rw [(hplanned sprint hold hlifecycle).1 ended hmem] at hactive
      rw [hactive] at hlifecycle
      cases hlifecycle

theorem PlannedFirst.of_reachable {store : TeamStore p} (h : (teamRuns p).Reachable store) :
    PlannedFirst store.scrum.toScrumCollections := by
  refine rows_induction (I := fun _ scrum => PlannedFirst scrum.toScrumCollections) h
    (fun _ _ _ _ _ _ hboot => hboot.plannedFirst) ?_
  intro store event command store' hreach hplanned _ hof hcommitted
  cases hof with
  | tick request draws advance _ _ hadvance _ _ hassembled =>
    obtain ⟨outcome, finish, hrun⟩ := tickAdvance_eq_ok hadvance
    obtain ⟨hsprints, hscope⟩ := hcommitted.tick_frame hrun hassembled
    intro sprint hsprint hlifecycle
    obtain ⟨honly, huntouched, hnone⟩ := hplanned sprint ((hsprints sprint).mp hsprint) hlifecycle
    refine ⟨fun s hs => honly s ((hsprints s).mp hs),
      tick_untouched hcommitted hrun hassembled huntouched, ?_⟩
    refine List.eq_nil_iff_forall_not_mem.mpr fun entry hentry => ?_
    have hentry := (hscope entry).mp hentry
    rw [hnone] at hentry
    cases hentry
  | boundary instant transition _ hstep _ hstate =>
    by_cases hempty : transition = emptyTransition
    · have hrows : command.state.toScrumCollections = {} := by
        rw [hstate, hempty]
        rfl
      exact hcommitted.plannedFirst_of_empty hrows hplanned
    · intro sprint hsprint hlifecycle
      refine absurd hlifecycle (hstep.not_planned hplanned hempty ?_)
      rw [← hstate]
      exact (hcommitted.mem_rows Collection.sprints (fun _ _ _ => rfl)).mp hsprint
  | downtime hrows => exact hcommitted.plannedFirst_of_empty hrows hplanned

/-! ### Activations -/

theorem activateItem_itemMove {blueprint : ResolvedTeamBlueprint} {startedAt : ℤ}
    {members : List MemberIdentity} {draws : DrawSource} {item : WorkItemState}
    {activated : ActivatedItem} {visits : Set StatusVisitState}
    (h : activateItem p blueprint startedAt members draws item = .ok activated)
    (hbacklog : item.lifecycle = .BACKLOG) {visits' : Set StatusVisitState}
    (hvisits : ∀ v, v ∈ visits' ↔ v ∈ activated.visits ∨
      (v ∈ visits ∧ v.id ∉ activated.visits.map (·.id))) :
    ActivationMove p blueprint startedAt { work := item, visits }
      { work := activated.item, visits := visits' } := by
  obtain ⟨route, -, ⟨terminal, -, -, -, -, rfl⟩ | ⟨step, member, visit, sample, -, -, -, henters,
    heq⟩⟩ := activateItem_eq_ok h
  · have hsame : visits' = visits := Set.ext fun v => by rw [hvisits v]; simp
    rw [hsame]
    exact .finishes terminal.statusKey hbacklog
  · subst heq
    have hput : visits' = putVisit visits visit := by
      ext v
      rw [hvisits v, mem_putVisit]
      simp
    rw [hput]
    exact .enters step draws (some member) visit sample hbacklog henters

theorem activateItem_visits {blueprint : ResolvedTeamBlueprint} {startedAt : ℤ}
    {members : List MemberIdentity} {draws : DrawSource} {item : WorkItemState}
    {activated : ActivatedItem}
    (h : activateItem p blueprint startedAt members draws item = .ok activated) :
    ∀ visit ∈ activated.visits, visit.Valid ∧ visit.workItemId = item.id := by
  obtain ⟨route, -, ⟨terminal, -, -, -, -, rfl⟩ | ⟨step, member, visit, sample, -, -, -, henters,
    heq⟩⟩ := activateItem_eq_ok h
  · simp
  · subst heq
    intro v hv
    rw [List.mem_singleton] at hv
    subst hv
    exact ⟨henters.visitValid, henters.workItemId_eq⟩

/-- An item of the initial state: in the backlog, or activated from it. -/
theorem Bootstrapped.itemMove {start : TeamStart} {draws : DrawSource}
    {context : BootstrapContext} {picked : List Uuid} {initial : ScrumStateWriteSet p}
    {store : TeamStore p} (h : Bootstrapped start draws context picked initial store)
    {work' : WorkItemState} (hwork' : work' ∈ store.scrum.workItems) :
    ∃ work ∈ context.workItems, work.id = work'.id ∧
      (store.scrum.viewOf work' = { work, visits := ∅ } ∨
        ActivationMove p start.aggregate.blueprint start.startedAt { work, visits := ∅ }
          (store.scrum.viewOf work')) := by
  have hrows := h.initialRows
  have hvisits : ∀ v, v ∈ store.scrum.statusVisits ↔ ∃ item ∈ context.workItems,
      item.id ∈ picked ∧ ∃ activated, activateItem p start.aggregate.blueprint start.startedAt
        context.members draws item = .ok activated ∧ v ∈ activated.visits := fun v =>
    (h.mem_rows Collection.statusVisits).trans (hrows.visits v)
  rcases (hrows.workItems work').mp ((h.mem_rows Collection.workItems).mp hwork') with
    ⟨item, hmem, hpicked, activated, hactivated, rfl⟩ | ⟨hmem, hnot⟩
  · have hid := activateItem_id hactivated
    refine ⟨item, hmem, hid.symm, .inr ?_⟩
    have hbacklog := (rankedBacklog_eq_ok hrows.items_eq item hmem).lifecycle
    refine activateItem_itemMove hactivated hbacklog fun v => ?_
    constructor
    · rintro ⟨hv, hwork⟩
      obtain ⟨other, hother, hpicked', activated', hactivated', hv⟩ := (hvisits v).mp hv
      have hsame : other.id = item.id :=
        ((activateItem_visits hactivated' v hv).2.symm.trans hwork).trans hid
      -- item ids are distinct, so the visit is of this activation
      have hitem : other = item := List.inj_on_of_nodup_map (rankedBacklog_nodup hrows.items_eq)
        hother hmem hsame
      subst hitem
      rw [hactivated'] at hactivated
      cases hactivated
      exact .inl hv
    · rintro (hv | ⟨hv, -⟩)
      · exact ⟨(hvisits v).mpr ⟨item, hmem, hpicked, activated, hactivated, hv⟩,
          (activateItem_visits hactivated v hv).2.trans hid.symm⟩
      · cases hv
  · refine ⟨work', hmem, rfl, .inl (ScrumCollections.viewOf_eq ?_)⟩
    refine Set.eq_empty_iff_forall_notMem.mpr fun v hv => ?_
    obtain ⟨item, -, hpicked, activated, hactivated, hmem'⟩ := (hvisits v).mp hv.1
    refine hnot ?_
    rw [← hv.2, (activateItem_visits hactivated v hmem').2]
    exact hpicked

section activation

variable {blueprint : ResolvedTeamBlueprint} {startedAt : ℤ} {members : List MemberIdentity}
  {draws : DrawSource} {selected : List Uuid} {c w c' : ScrumCollections}

/-- A sprint activates the selected items and leaves the others alone. -/
theorem Activation.itemMove (hc : c.Consistent p)
    (h : Activation p blueprint startedAt members draws c.workItems selected w.workItems
      w.statusVisits w.statusVisitSamples)
    (hbacklog : ∀ item ∈ c.workItems, item.id ∈ selected → item.lifecycle = .BACKLOG)
    (hitems : ∀ row, row ∈ c'.workItems ↔ row ∈ w.workItems ∨
      (row ∈ c.workItems ∧ row.id ∉ w.workItems.map (·.id)))
    (hvisits : ∀ row, row ∈ c'.statusVisits ↔ row ∈ w.statusVisits ∨
      (row ∈ c.statusVisits ∧ row.id ∉ w.statusVisits.map (·.id)))
    {work' : WorkItemState} (hwork' : work' ∈ c'.workItems) :
    ∃ work ∈ c.workItems, work.id = work'.id ∧ (c'.viewOf work' = c.viewOf work ∨
      ActivationMove p blueprint startedAt (c.viewOf work) (c'.viewOf work')) := by
  -- a visit that is written belongs to the one activation of its item
  have hrows : ∀ v ∈ w.statusVisits, v.Valid ∧ v.workItemId ∈ selected ∧
      ∀ item ∈ c.workItems, ∀ activated, activateItem p blueprint startedAt members draws item =
        .ok activated → v.workItemId = item.id → v ∈ activated.visits := by
    intro v hv
    obtain ⟨other, hother, hselected, activated', hactivated', hmem⟩ := (h.visits v).mp hv
    obtain ⟨hvalid, hwork⟩ := activateItem_visits hactivated' v hmem
    refine ⟨hvalid, hwork ▸ hselected, fun item hitem activated hactivated hid => ?_⟩
    have hsame : other = item :=
      Collection.workItems.eq_of_key_eq hc hother hitem (hwork.symm.trans hid)
    subst hsame
    rw [hactivated'] at hactivated
    cases hactivated
    exact hmem
  rcases (hitems work').mp hwork' with hnew | ⟨hold, hnot⟩
  · -- the item was written, so it was activated
    obtain ⟨item, hitem, hselected, activated, hactivated, rfl⟩ := (h.workItems work').mp hnew
    have hid := activateItem_id hactivated
    have hvalid := activateItem_visits hactivated
    have hw : ∀ v ∈ activated.visits, v ∈ w.statusVisits := fun v hv =>
      (h.visits v).mpr ⟨item, hitem, hselected, activated, hactivated, hv⟩
    refine ⟨item, hitem, hid.symm, .inr ?_⟩
    refine activateItem_itemMove hactivated (hbacklog item hitem hselected) fun v => ?_
    constructor
    · rintro ⟨hv, hwork⟩
      rcases (hvisits v).mp hv with hv | ⟨hv, hne⟩
      · exact .inl ((hrows v hv).2.2 item hitem activated hactivated (hwork.trans hid))
      · refine .inr ⟨⟨hv, hwork.trans hid⟩, fun hmem => hne ?_⟩
        obtain ⟨v', hv', hid'⟩ := List.mem_map.mp hmem
        exact List.mem_map.mpr ⟨v', hw v' hv', hid'⟩
    · rintro (hv | ⟨⟨hv, hwork⟩, hne⟩)
      · exact ⟨(hvisits v).mpr (.inl (hw v hv)), (hvalid v hv).2.trans hid.symm⟩
      · refine ⟨(hvisits v).mpr (.inr ⟨hv, fun hmem => hne ?_⟩), hwork.trans hid.symm⟩
        obtain ⟨v', hv', hid'⟩ := List.mem_map.mp hmem
        have hitem' := (hrows v' hv').1.workItemId_eq (hc.visit_valid hv) hid'
        exact List.mem_map.mpr ⟨v', (hrows v' hv').2.2 item hitem activated hactivated
          (hitem'.trans hwork), hid'⟩
  · -- the item was kept, so it was not selected and gains no visit
    have hunselected : work'.id ∉ selected := by
      intro hselected
      obtain ⟨activated, hactivated⟩ := h.total work' hold hselected
      refine hnot (List.mem_map.mpr ⟨activated.item, ?_, activateItem_id hactivated⟩)
      exact (h.workItems activated.item).mpr ⟨work', hold, hselected, activated, hactivated, rfl⟩
    refine ⟨work', hold, rfl, .inl (ScrumCollections.viewOf_eq (Set.ext fun v => ?_))⟩
    constructor
    · rintro ⟨hv, hwork⟩
      rcases (hvisits v).mp hv with hv | ⟨hv, -⟩
      · exact absurd (hwork ▸ (hrows v hv).2.1) hunselected
      · exact ⟨hv, hwork⟩
    · rintro ⟨hv, hwork⟩
      refine ⟨(hvisits v).mpr (.inr ⟨hv, fun hmem => hunselected ?_⟩), hwork⟩
      obtain ⟨v', hv', hid'⟩ := List.mem_map.mp hmem
      have hitem' := (hrows v' hv').1.workItemId_eq (hc.visit_valid hv) hid'
      rw [← hwork, ← hitem']
      exact (hrows v' hv').2.1

end activation

/-- A sprint boundary leaves an item alone or activates it. -/
theorem boundary_itemMove {store store' : TeamStore p} {command : AuthoritativeTickSliceCommit p}
    {instant : ℤ} {transition : SprintTransition p} (hcommitted : Committed store command store')
    (hplanned : PlannedFirst store.scrum.toScrumCollections)
    (hstep : BoundaryStep store.state instant transition) (hstate : command.state = transition.state)
    {work' : WorkItemState} (hwork' : work' ∈ store'.scrum.workItems) :
    ∃ work ∈ store.scrum.workItems, work.id = work'.id ∧
      (store'.scrum.viewOf work' = store.scrum.viewOf work ∨
        ActivationMove p store.aggregate.blueprint instant (store.scrum.viewOf work)
          (store'.scrum.viewOf work')) := by
  have hitems := fun row => hcommitted.mem_rows Collection.workItems (a := row) fun _ _ _ => rfl
  have hvisits := fun row => hcommitted.mem_rows Collection.statusVisits (a := row) fun _ _ _ => rfl
  have hc := store.scrum.complete.toConsistent
  cases hstep with
  | quiet h =>
    have hempty : command.state.toScrumCollections = {} := by
      rw [hstate, h]
      rfl
    refine ⟨work', ?_, rfl, .inl (hcommitted.viewOf_of_empty hempty work')⟩
    exact (hcommitted.mem_of_empty Collection.workItems (fun _ _ _ => rfl) hempty).mp hwork'
  -- the items of a planned sprint are still in the backlog
  | activates sprint draws selected context hmem hlifecycle _ _ _ hactivation _ _ _ _ _ h =>
    have hw : command.state = context.writeSet := by
      rw [hstate, h]
      rfl
    rw [hw] at hitems hvisits
    refine Activation.itemMove hc hactivation (fun item hitem _ => ?_) hitems hvisits hwork'
    exact ((hplanned sprint hmem hlifecycle).2.1 item hitem).1
  -- and so are the ranked items of the successor
  | rolls sprint successor draws carryIds backlogIds context counter _ _ _ _ _ hbacklog hactivation
      _ _ _ _ _ _ _ _ h =>
    have hw : command.state = context.writeSet := by
      rw [hstate, h]
      rfl
    rw [hw] at hitems hvisits
    refine Activation.itemMove hc hactivation (fun item hitem hselected => ?_) hitems hvisits hwork'
    obtain ⟨other, hother, hid, hlifecycle⟩ := mem_rankedBacklogIds hbacklog hselected
    rwa [Collection.workItems.eq_of_key_eq hc hitem hother hid.symm]

/-! ### Invariants of items -/

/-- The rule for an invariant of every item, which may speak about the simulation time. -/
theorem items_induction {I : ℤ → ItemView → Prop} {store : TeamStore p}
    (h : (teamRuns p).Reachable store)
    (mono : ∀ t t' item, t ≤ t' → I t item → I t' item)
    (backlog : ∀ t work, work.lifecycle = .BACKLOG → I t { work, visits := ∅ })
    (activation : ∀ blueprint t instant item item', item'.Valid → I t item →
      ActivationMove p blueprint instant item item' → I t item')
    (tick : ∀ blueprint t t' item mid item', t ≤ t' → item.Valid → item'.Valid → I t item →
      RiskMoves p blueprint t t' item mid → ProgressMove p blueprint t' mid item' → I t' item') :
    ∀ work ∈ store.scrum.workItems,
      I store.aggregate.runtime.simulationTime (store.scrum.viewOf work) := by
  refine rows_induction (I := fun aggregate scrum => ∀ work ∈ scrum.workItems,
    I aggregate.runtime.simulationTime (scrum.viewOf work)) h ?_ ?_
  · -- the first items are in the backlog, or activated from it
    intro start draws context picked initial store hboot work' hwork'
    obtain ⟨work, hwork, -, hview | hmove⟩ := hboot.itemMove hwork'
    all_goals
      have hbacklog := (rankedBacklog_eq_ok hboot.initialRows.items_eq work hwork).lifecycle
    · rw [hview]
      exact backlog _ work hbacklog
    · exact activation _ _ _ _ _ (store.scrum.complete.viewOf_valid hwork')
        (backlog _ work hbacklog) hmove
  · -- a tick moves an item by its rules and then by its progress
    intro store event command store' hreach hI hkept hof hcommitted work' hwork'
    have htime' := hcommitted.runtime_eq.2.2.2.2
    have hvalid' := store'.scrum.complete.viewOf_valid hwork'
    have hle : store.aggregate.runtime.simulationTime ≤
        store'.aggregate.runtime.simulationTime := htime' ▸ hkept.cursor_le
    cases hof with
    | tick request draws advance _ _ hadvance _ htime hassembled =>
      obtain ⟨outcome, finish, hrun⟩ := tickAdvance_eq_ok hadvance
      obtain ⟨work, hwork, -, mid, hmoves, hmove⟩ := tick_itemMoves hcommitted hrun hassembled hwork'
      rw [← htime, ← htime'] at hmoves hmove
      exact tick _ _ _ _ mid _ hle (store.scrum.complete.viewOf_valid hwork) hvalid'
        (hI work hwork) hmoves hmove
    | boundary instant transition _ hstep _ hstate =>
      obtain ⟨work, hwork, -, hview | hmove⟩ := boundary_itemMove hcommitted
        (PlannedFirst.of_reachable hreach) hstep hstate hwork'
      · rw [hview]
        exact mono _ _ _ hle (hI work hwork)
      · exact activation _ _ _ _ _ hvalid' (mono _ _ _ hle (hI work hwork)) hmove
    | downtime hempty =>
      have hwork := (hcommitted.mem_of_empty Collection.workItems (fun _ _ _ => rfl) hempty).mp hwork'
      rw [hcommitted.viewOf_of_empty hempty]
      exact mono _ _ _ hle (hI work' hwork)

end JiraSimulator
