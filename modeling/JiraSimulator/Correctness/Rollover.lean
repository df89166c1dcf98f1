import JiraSimulator.Correctness.Counters
import JiraSimulator.Correctness.Scripts

/-!
# The frame of a rollover

At the end of the active sprint its current scope rows are removed, and its successor takes over the
unfinished items and the next items of the backlog.  The write set speaks about the backlog items
only: a carried item is in progress, so it is not one of them, and an identifier has one row.
* `carryoverIds_nodup`, `rankedBacklogIds_nodup`: the two lists that the rollover plans.
* `Rolled`: the parts of the transition, and `rollActiveSprint_steps`, which reads them off a run.
* `rollover_frame`: what the rollover of a reachable store writes and what it leaves alone.
-/

namespace JiraSimulator

open Library Library.Outcome Library.Transition ScrumCollections

variable {p : Platform}

/-! ### The planned items -/

/-- The items that a sprint carries over: those of its current scope that are in progress, in the
order of the scope. -/
theorem carryoverIds_eq_ok {state : LiveTeamState p} {sprint : SprintState} {ids : List Uuid}
    (h : carryoverIds state sprint.id = .ok ids) :
    ids.Sublist ((currentScopeOf state sprint).map (·.workItemId)) ∧
      ∀ entry ∈ currentScopeOf state sprint, ∀ work ∈ state.scrum.workItems,
        work.id = entry.workItemId → work.lifecycle = .ACTIVE → entry.workItemId ∈ ids := by
  simp only [carryoverIds, bind_eq_ok, pure_eq_ok] at h
  obtain ⟨items, hitems, rfl⟩ := h
  have hids : items.map (·.id) = (currentScopeOf state sprint).map (·.workItemId) :=
    map_eq_map_of_mapM hitems fun _ _ hitem => (getItem_eq_ok hitem).2
  refine ⟨hids ▸ List.filter_sublist.map _, fun entry hentry work hwork hid hactive => ?_⟩
  obtain ⟨item, hitem, hget⟩ := exists_of_mem_of_mapM hitems hentry
  obtain ⟨hmem, hkey⟩ := getItem_eq_ok hget
  have hsame : item = work := Collection.workItems.eq_of_key_eq
    state.scrum.complete.toConsistent hmem hwork (hkey.trans hid.symm)
  refine List.mem_map.mpr ⟨item, List.mem_filter.mpr ⟨hitem, ?_⟩, hkey⟩
  rw [hsame, hactive]
  rfl

/-- No item is carried over twice. -/
theorem carryoverIds_nodup {state : LiveTeamState p} {sprint : SprintState} {ids : List Uuid}
    (h : carryoverIds state sprint.id = .ok ids) : ids.Nodup := by
  refine (carryoverIds_eq_ok h).1.nodup (List.Nodup.map_on ?_ ?_)
  · intro a ha b hb hwork
    simp only [currentScopeOf, List.mem_filter, Bool.and_eq_true, decide_eq_true_eq,
      Option.isNone_iff_eq_none] at ha hb
    exact state.scrum.complete.toConsistent.currentScope_unique ha.1 hb.1 ha.2.2 hb.2.2 hwork
  · have hnodup := Collection.sprintScope.nodup state.scrum.complete.toConsistent
    exact (List.Nodup.of_map _ hnodup).filter _

theorem takeBacklog_sublist (minPoints : ℕ) (target : ℤ) (used : ℕ) (items : List WorkItemState) :
    (takeBacklog minPoints target used items).Sublist (items.map (·.id)) := by
  induction items generalizing used with
  | nil => exact List.Sublist.slnil
  | cons item items ih =>
    rw [takeBacklog, List.map_cons]
    split_ifs
    · exact (ih used).cons _
    · exact List.nil_sublist _
    · exact (ih _).cons_cons _

/-- No backlog item is planned twice. -/
theorem rankedBacklogIds_nodup {state : LiveTeamState p} {sprintId : Uuid}
    {carryIds ids : List Uuid} {draws : DrawSource}
    (h : rankedBacklogIds state sprintId carryIds draws = .ok ids) : ids.Nodup := by
  simp only [rankedBacklogIds, bind_eq_ok, pure_eq_ok] at h
  obtain ⟨carried, -, rfl⟩ := h
  have hperm := (Ordering.sortOn_perm (simulatorRank p) state.scrum.workItems).map (·.id)
  exact (takeBacklog_sublist _ _ _ _).nodup
    (hperm.nodup_iff.mpr (Collection.workItems.nodup state.scrum.complete.toConsistent))

/-- Carried items are in progress and planned ones in the backlog, so no item is both. -/
theorem planned_nodup {state : LiveTeamState p} {sprint : SprintState} {sprintId : Uuid}
    {carryIds backlogIds : List Uuid} {draws : DrawSource}
    (hcarry : carryoverIds state sprint.id = .ok carryIds)
    (hbacklog : rankedBacklogIds state sprintId carryIds draws = .ok backlogIds) :
    (carryIds ++ backlogIds).Nodup := by
  refine List.nodup_append.mpr ⟨carryoverIds_nodup hcarry, rankedBacklogIds_nodup hbacklog, ?_⟩
  rintro id hid other hother rfl
  obtain ⟨⟨work, hwork, hworkId, hactive⟩, -⟩ := mem_carryoverIds hcarry hid
  obtain ⟨item, hitem, hitemId, hlifecycle⟩ := mem_rankedBacklogIds hbacklog hother
  have hsame : work = item := Collection.workItems.eq_of_key_eq
    state.scrum.complete.toConsistent hwork hitem (hworkId.trans hitemId.symm)
  rw [hsame, hlifecycle] at hactive
  cases hactive

/-! ### The activated items -/

section activated

variable {aggregate : PersistedTeamAggregate} {startedAt : ℤ} {members : List MemberIdentity}
  {draws : DrawSource} {items : List WorkItemState} {selected : List Uuid}
  {results : List ActivatedItem}
  (h : activateSelectedWork p aggregate startedAt members items selected draws = .ok results)

include h

/-- Every item gives its own row. -/
theorem activated_ids : (results.map (·.item)).map (·.id) = items.map (·.id) := by
  have hall := activateSelectedWork_eq_ok h
  clear h
  induction hall with
  | nil => rfl
  | @cons item result items results hresult _ ih =>
    have hid : result.item.id = item.id := by
      rcases hresult with ⟨-, hactivate⟩ | ⟨-, hsame⟩
      · exact activateItem_id hactivate
      · rw [hsame]
    rw [List.map_cons, List.map_cons, List.map_cons, hid, ih]

/-- Every item enters at most one visit. -/
theorem activated_visits : ((results.flatMap (·.visits)).map (·.workItemId)).Sublist
    (items.map (·.id)) := by
  have hall := activateSelectedWork_eq_ok h
  clear h
  induction hall with
  | nil => exact List.Sublist.slnil
  | @cons item result items results hresult _ ih =>
    rw [List.flatMap_cons, List.map_append, List.map_cons]
    have hvisits : result.visits = [] ∨ ∃ visit, result.visits = [visit] ∧
        visit.workItemId = item.id := by
      rcases hresult with ⟨-, hactivate⟩ | ⟨-, rfl⟩
      · obtain ⟨route, -, ⟨terminal, -, -, -, -, rfl⟩ | ⟨step, member, visit, sample, -, -, -,
          henters, rfl⟩⟩ := activateItem_eq_ok hactivate
        · exact .inl rfl
        · exact .inr ⟨visit, rfl, henters.workItemId_eq⟩
      · exact .inl rfl
    rcases hvisits with hnone | ⟨visit, hone, hwork⟩
    · rw [hnone]
      exact ih.cons _
    · rw [hone, List.map_singleton, List.singleton_append, hwork]
      exact ih.cons_cons _

/-- The rows of the selected items are the only ones that the activation writes. -/
theorem activated_perm (hnodup : (items.map (·.id)).Nodup) (hselected : selected.Nodup)
    (hsubset : selected ⊆ items.map (·.id)) :
    (((results.map (·.item)).filter fun item => item.id ∈ selected).map (·.id)).Perm selected := by
  have hids := activated_ids h
  have hrows : ((results.map (·.item)).map (·.id)).Nodup := hids ▸ hnodup
  refine (List.perm_ext_iff_of_nodup (hrows.sublist (List.filter_sublist.map _)) hselected).mpr ?_
  intro id
  simp only [List.mem_map, List.mem_filter, decide_eq_true_eq]
  constructor
  · rintro ⟨item, ⟨-, hmem⟩, rfl⟩
    exact hmem
  · intro hid
    have hmem := hsubset hid
    rw [← hids] at hmem
    obtain ⟨item, hrow, rfl⟩ := List.mem_map.mp hmem
    exact ⟨item, ⟨List.mem_map.mp hrow, hid⟩, rfl⟩

end activated

/-- The claims of a rollover: one for each visit, on the counter of its item. -/
theorem visitClaims_eq_ok {state : LiveTeamState p} {visits : List StatusVisitState}
    {claims : List SemanticCounterClaim}
    (h : visits.mapM (fun visit => visitClaim state visit.workItemId) = .ok claims) :
    List.Forall₂ (fun visit claim => claim.scope = .visitOrdinal visit.workItemId ∧
      claim.count = 1 ∧ counterAt state.scrum.semanticCounters claim.scope =
        some claim.expectedNext) visits claims := by
  refine (mapM_eq_ok.mp h).imp fun visit claim hclaim => ?_
  simp only [visitClaim, SemanticCounterClaim.one, bind_eq_ok, validated_eq_ok] at hclaim
  obtain ⟨counter, hcounter, -, rfl⟩ := hclaim
  obtain ⟨hmem, hscope⟩ := mem_of_next hcounter
  have hat := counterAt_of_mem state.scrum.complete.toConsistent hmem
  rw [of_decide_eq_true hscope] at hat
  exact ⟨rfl, rfl, hat⟩

/-! ### The frame -/

/-- The rows of an item and of its visits and samples are the same. -/
structure ItemRowsKept (c c' : ScrumCollections) (item : Uuid) : Prop where
  workItem : ∀ work, work.id = item → (work ∈ c'.workItems ↔ work ∈ c.workItems)
  visits : ∀ visit, visit.workItemId = item → (visit ∈ c'.statusVisits ↔ visit ∈ c.statusVisits)
  samples : ∀ visit ∈ c.statusVisits, visit.workItemId = item → ∀ sample,
    sample.visitId = visit.id → (sample ∈ c'.statusVisitSamples ↔ sample ∈ c.statusVisitSamples)

/-- What a rollover does to the rows of a state: it ends the sprint, starts the successor, and plans
the carried items and then the planned ones. -/
structure RolloverFrame (c w : ScrumCollections) (sprint successor : SprintState) (boundary : ℤ)
    (carried planned : List Uuid) : Prop where
  sprints : w.sprints = [endedSprint sprint boundary, successor]
  fresh : successor.id ∉ c.sprints.map (·.id)
  removed : ∀ entry ∈ c.sprintScope, entry.sprintId = sprint.id → entry.removedAt = none →
    { entry with removedAt := some boundary } ∈ (c.updateWith w).sprintScope
  noneCurrent : ∀ entry ∈ (c.updateWith w).sprintScope, entry.sprintId = sprint.id →
    entry.removedAt ≠ none
  scope : (w.sprintScope.filter fun entry => entry.sprintId = successor.id).map (·.workItemId) =
    carried ++ planned
  scopeRows : ∀ entry, entry.sprintId = successor.id →
    (entry ∈ (c.updateWith w).sprintScope ↔ entry ∈ w.sprintScope)
  scopeTimes : ∀ entry ∈ w.sprintScope, entry.sprintId = successor.id →
    entry.addedAt = boundary ∧ entry.removedAt = none
  carried_iff : ∀ item, item ∈ carried ↔ ∃ entry ∈ c.sprintScope, entry.sprintId = sprint.id ∧
    entry.removedAt = none ∧ entry.workItemId = item ∧
      ∃ work ∈ c.workItems, work.id = item ∧ work.lifecycle = .ACTIVE
  planned_backlog : ∀ item ∈ planned, ∃ work ∈ c.workItems, work.id = item ∧
    work.lifecycle = .BACKLOG
  nodup : (carried ++ planned).Nodup
  changed : (w.workItems.map (·.id)).Perm planned
  kept : ∀ item, item ∉ planned → ItemRowsKept c (c.updateWith w) item

/-- Rows written for other items leave an item alone. -/
theorem itemRowsKept_of_others {c w : ScrumCollections} (hc : c.Complete p) (hw : w.Consistent p)
    {item : Uuid} (hitems : ∀ row ∈ w.workItems, row.id ≠ item)
    (hvisits : ∀ row ∈ w.statusVisits, row.workItemId ≠ item)
    (hsamples : ∀ row ∈ w.statusVisitSamples, row.visitId ∈ w.statusVisits.map (·.id)) :
    ItemRowsKept c (c.updateWith w) item := by
  -- a written visit of the item would be a row of the item
  have hother : ∀ visit ∈ c.statusVisits, visit.workItemId = item →
      visit.id ∉ w.statusVisits.map (·.id) := by
    intro visit hvisit hwork hmem
    obtain ⟨row, hrow, hid⟩ := List.mem_map.mp hmem
    have hsame := (hw.visit_valid hrow).workItemId_eq (hc.toConsistent.visit_valid hvisit) hid
    exact hvisits row hrow (hsame.trans hwork)
  refine ⟨fun work hid => ?_, fun visit hwork => ?_, fun visit hvisit hwork sample hsample => ?_⟩
  · rw [Collection.workItems.mem_updateWith hc.toConsistent hw]
    constructor
    · rintro (hrow | ⟨hmem, -⟩)
      · exact absurd hid (hitems work hrow)
      · exact hmem
    · intro hmem
      refine .inr ⟨hmem, fun hkey => ?_⟩
      obtain ⟨row, hrow, hsame⟩ := List.mem_map.mp hkey
      exact hitems row hrow (hsame.trans hid)
  · rw [Collection.statusVisits.mem_updateWith hc.toConsistent hw]
    constructor
    · rintro (hrow | ⟨hmem, -⟩)
      · exact absurd hwork (hvisits visit hrow)
      · exact hmem
    · exact fun hmem => .inr ⟨hmem, hother visit hmem hwork⟩
  · rw [Collection.samples.mem_updateWith hc.toConsistent hw]
    constructor
    · rintro (hrow | ⟨hmem, -⟩)
      · exact absurd (hsample ▸ hsamples sample hrow) (hother visit hvisit hwork)
      · exact hmem
    · intro hmem
      refine .inr ⟨hmem, fun hkey => ?_⟩
      obtain ⟨row, hrow, hsame⟩ := List.mem_map.mp hkey
      have hvisitId : row.visitId = visit.id := hsame.trans hsample
      exact hother visit hvisit hwork (hvisitId ▸ hsamples row hrow)

section rolled

variable {state : LiveTeamState p} {sprint successor : SprintState} {boundary : ℤ}
  {draws : DrawSource} {carryIds backlogIds : List Uuid} {results : List ActivatedItem}
  {sprintClaim : SemanticCounterClaim} {claims : List SemanticCounterClaim}
  {context : TransitionContext p}
  (h : Rolled state sprint successor boundary draws carryIds backlogIds results sprintClaim claims
    context)

include h

/-- The successor of a sprint is new, since it takes its ordinal from the counter. -/
theorem Rolled.fresh (hcounted : SprintsCounted state.scrum.toScrumCollections) :
    successor.id ∉ state.scrum.sprints.map (·.id) := by
  obtain ⟨counter, hcounter, hscope, hvalid, -, hteam, hordinal, -⟩ :=
    successor_eq_ok h.successor_eq
  rw [hvalid.id, hteam, hordinal]
  exact hcounted.not_mem_of_counter state.scrum.complete.toConsistent hcounter hscope

/-- Only planned items are written about. -/
theorem Rolled.kept {item : Uuid} (hitem : item ∉ backlogIds) : ItemRowsKept
    state.scrum.toScrumCollections
    (state.scrum.updateWith context.writeSet.toScrumCollections) item := by
  have hactivation := activation_of_results h.results_eq
  have hw := context.writeSet.consistent
  refine itemRowsKept_of_others state.scrum.complete hw ?_ ?_ ?_
  · rw [h.rows]
    rintro row hrow rfl
    exact hitem (of_decide_eq_true (List.mem_filter.mp hrow).2)
  · rw [h.rows]
    rintro row hrow rfl
    obtain ⟨work, -, hselected, activated, hactivate, hmem⟩ := (hactivation.visits row).mp hrow
    rw [(activateItem_visits hactivate row hmem).2] at hitem
    exact hitem hselected
  · rw [h.rows]
    intro sample hsample
    obtain ⟨work, hwork, hselected, activated, hactivate, hmem⟩ :=
      (hactivation.samples sample).mp hsample
    obtain ⟨route, -, ⟨terminal, -, -, -, -, rfl⟩ | ⟨step, member, visit, entered, -, -, -,
      henters, rfl⟩⟩ := activateItem_eq_ok hactivate
    · cases hmem
    · rw [List.mem_singleton.mp hmem, henters.sample_visitId]
      refine List.mem_map_of_mem ((hactivation.visits visit).mpr ?_)
      exact ⟨work, hwork, hselected, _, hactivate, List.mem_singleton_self visit⟩

/-- The scope rows of a rollover: the current ones of the sprint, removed, and those of the
successor. -/
theorem Rolled.mem_scope {entry : SprintScopeEntry} :
    entry ∈ context.writeSet.sprintScope ↔
      (∃ old ∈ state.scrum.sprintScope, (old.sprintId = sprint.id ∧ old.removedAt = none) ∧
        { old with removedAt := some boundary } = entry) ∨
      ∃ item ∈ carryIds ++ backlogIds, newScopeEntry state successor.id boundary item = entry := by
  rw [h.rows, List.mem_append, List.mem_map, List.mem_map]
  simp only [currentScopeOf, List.mem_filter, Bool.and_eq_true, decide_eq_true_eq,
    Option.isNone_iff_eq_none, and_assoc]

/-- The rollover removes the current scope rows of the sprint at the boundary. -/
theorem Rolled.removed {entry : SprintScopeEntry} (hentry : entry ∈ state.scrum.sprintScope)
    (hsprint : entry.sprintId = sprint.id) (hcurrent : entry.removedAt = none) :
    { entry with removedAt := some boundary } ∈
      (state.scrum.updateWith context.writeSet.toScrumCollections).sprintScope := by
  refine (Collection.sprintScope.mem_updateWith state.scrum.complete.toConsistent
    context.writeSet.consistent).mpr (.inl ?_)
  exact h.mem_scope.mpr (.inl ⟨entry, hentry, ⟨hsprint, hcurrent⟩, rfl⟩)

/-- After the rollover no scope row of the sprint is current. -/
theorem Rolled.noneCurrent (hne : successor.id ≠ sprint.id) {entry : SprintScopeEntry}
    (hentry : entry ∈
      (state.scrum.updateWith context.writeSet.toScrumCollections).sprintScope)
    (hsprint : entry.sprintId = sprint.id) : entry.removedAt ≠ none := by
  intro hcurrent
  have hmem := (Collection.sprintScope.mem_updateWith state.scrum.complete.toConsistent
    context.writeSet.consistent).mp hentry
  rcases hmem with hwritten | ⟨hold, hkey⟩
  · rcases h.mem_scope.mp hwritten with ⟨old, -, -, rfl⟩ | ⟨item, -, rfl⟩
    · cases hcurrent
    · exact hne hsprint
  · -- a current row that was not written would have been closed
    have hclosed := h.mem_scope.mpr (.inl ⟨entry, hold, ⟨hsprint, hcurrent⟩, rfl⟩)
    exact hkey (List.mem_map.mpr ⟨_, hclosed, rfl⟩)

/-- The scope of the successor: the carried items, and then the planned ones. -/
theorem Rolled.scope (hne : successor.id ≠ sprint.id) :
    (context.writeSet.sprintScope.filter fun entry => entry.sprintId = successor.id).map
      (·.workItemId) = carryIds ++ backlogIds := by
  have hclosed : ((currentScopeOf state sprint).map fun entry =>
      { entry with removedAt := some boundary }).filter
        (fun entry => entry.sprintId = successor.id) = [] := by
    refine List.filter_eq_nil_iff.mpr fun entry hentry => ?_
    obtain ⟨old, hold, rfl⟩ := List.mem_map.mp hentry
    have hsprint : old.sprintId = sprint.id := by
      have hcurrent := (List.mem_filter.mp hold).2
      simp only [Bool.and_eq_true, decide_eq_true_eq] at hcurrent
      exact hcurrent.1
    show ¬decide (old.sprintId = successor.id) = true
    rw [hsprint, decide_eq_true_eq]
    exact hne.symm
  have hopened : ((carryIds ++ backlogIds).map (newScopeEntry state successor.id boundary)).filter
      (fun entry => entry.sprintId = successor.id) =
        (carryIds ++ backlogIds).map (newScopeEntry state successor.id boundary) := by
    refine List.filter_eq_self.mpr fun entry hentry => ?_
    obtain ⟨item, -, rfl⟩ := List.mem_map.mp hentry
    exact decide_eq_true rfl
  rw [h.rows, List.filter_append, hclosed, List.nil_append, hopened, List.map_map]
  exact List.map_id _

theorem Rolled.carried_iff {item : Uuid} : item ∈ carryIds ↔
    ∃ entry ∈ state.scrum.sprintScope, entry.sprintId = sprint.id ∧ entry.removedAt = none ∧
      entry.workItemId = item ∧
        ∃ work ∈ state.scrum.workItems, work.id = item ∧ work.lifecycle = .ACTIVE := by
  constructor
  · intro hitem
    obtain ⟨⟨work, hwork, hid, hactive⟩, entry, hentry, hsprint, hcurrent, hworkId⟩ :=
      mem_carryoverIds h.carry_eq hitem
    exact ⟨entry, hentry, hsprint, hcurrent, hworkId, work, hwork, hid, hactive⟩
  · rintro ⟨entry, hentry, hsprint, hcurrent, rfl, work, hwork, hid, hactive⟩
    have hmem : entry ∈ currentScopeOf state sprint := by
      refine List.mem_filter.mpr ⟨hentry, ?_⟩
      rw [hsprint, hcurrent]
      simp
    exact (carryoverIds_eq_ok h.carry_eq).2 entry hmem work hwork hid hactive

theorem Rolled.frame (hmem : sprint ∈ state.scrum.sprints)
    (hcounted : SprintsCounted state.scrum.toScrumCollections) :
    RolloverFrame state.scrum.toScrumCollections context.writeSet.toScrumCollections sprint
      successor boundary carryIds backlogIds := by
  have hfresh := h.fresh hcounted
  have hne : successor.id ≠ sprint.id := fun hsame => hfresh (hsame ▸ List.mem_map_of_mem hmem)
  have hrows := fun entry => Collection.sprintScope.mem_updateWith (a := entry)
    state.scrum.complete.toConsistent context.writeSet.consistent
  have hitems := Collection.workItems.nodup state.scrum.complete.toConsistent
  have hbacklog : ∀ item ∈ backlogIds, _ := fun item => mem_rankedBacklogIds h.backlog_eq
  refine ⟨by rw [h.rows], hfresh, fun entry => h.removed, fun entry => h.noneCurrent hne,
    h.scope hne, fun entry hentry => ?_, fun entry hentry hsprint => ?_, fun item => h.carried_iff,
    hbacklog, planned_nodup h.carry_eq h.backlog_eq, ?_, fun item => h.kept⟩
  · refine (hrows entry).trans ⟨fun hor => hor.resolve_right fun hold => ?_, .inl⟩
    exact hfresh (hentry ▸ state.scrum.complete.scopeSprint entry hold.1)
  · rcases h.mem_scope.mp hentry with ⟨old, -, ⟨hold, -⟩, rfl⟩ | ⟨item, -, rfl⟩
    · exact absurd (hsprint.symm.trans hold) hne
    · exact ⟨rfl, rfl⟩
  · rw [h.rows]
    have hplanned := rankedBacklogIds_nodup h.backlog_eq
    refine activated_perm h.results_eq hitems hplanned fun item hmem => ?_
    obtain ⟨work, hwork, hid, -⟩ := hbacklog item hmem
    exact List.mem_map.mpr ⟨work, hwork, hid⟩

end rolled

/-- The rollover of a sprint of a reachable store: what it writes, what it leaves alone, and its
claims, one on the sprint and one for each visit that it creates. -/
theorem rollover_frame {store : TeamStore p} (h : (teamRuns p).Reachable store)
    {sprint : SprintState} (hmem : sprint ∈ store.scrum.sprints) {transition : SprintTransition p}
    (hroll : rollActiveSprint store.state sprint sprint.plannedEndAt = .ok transition) :
    ∃ successor carried planned sprintClaim claims,
      RolloverFrame store.scrum.toScrumCollections transition.state.toScrumCollections sprint
        successor sprint.plannedEndAt carried planned ∧
      transition.counterClaims = sprintClaim :: claims ∧
      sprintClaim.scope = .sprintOrdinal sprint.teamId ∧
      List.Forall₂ (fun visit claim => claim.scope = .visitOrdinal visit.workItemId ∧
        claim.count = 1) transition.state.statusVisits claims ∧
      (transition.state.statusVisits.map (·.workItemId)).Nodup := by
  obtain ⟨successor, draws, carryIds, backlogIds, results, sprintClaim, claims, context, hrolled,
    rfl⟩ := rollActiveSprint_steps hroll
  have hframe := hrolled.frame hmem (sprintsCounted_of_reachable h)
  have hitems := Collection.workItems.nodup store.scrum.complete.toConsistent
  refine ⟨successor, carryIds, backlogIds, sprintClaim, claims, hframe,
    hrolled.context_eq.2.2.2.2, ?_, ?_, ?_⟩
  · have hsuccessor := hrolled.successor_eq
    simp only [JiraSimulator.successor, SemanticCounterClaim.one, bind_eq_ok, validated_eq_ok,
      pure_eq_ok, Prod.mk.injEq] at hsuccessor
    obtain ⟨-, -, -, -, -, -, -, -, -, -, -, -, -, -, claim, ⟨-, rfl⟩, -, rfl⟩ := hsuccessor
    rfl
  · show List.Forall₂ _ context.writeSet.statusVisits claims
    rw [hrolled.rows]
    exact (visitClaims_eq_ok hrolled.claims_eq).imp fun visit claim hclaim =>
      ⟨hclaim.1, hclaim.2.1⟩
  · show (context.writeSet.statusVisits.map (·.workItemId)).Nodup
    rw [hrolled.rows]
    exact hitems.sublist (activated_visits hrolled.results_eq)

/-! ### A small rollover -/

/-- The small team with three items, of which a sprint takes two and its member works on one at a
time. -/
def rollingDocument : BlueprintDocument :=
  let document := smallDocument [{ rejectionRule with baseProbability := 0 }] 0 0 0
  { document with
    members := document.members.map fun member => { member with maxConcurrentWip := 1 }
    timing := { document.timing with
      entries := [{ dwellTiming "DEV" 0 with touchMin := 1, touchMax := 1 },
        dwellTiming "CODE_REVIEW" 0, dwellTiming "QA" 0] }
    backlog := { document.backlog with targetDepth := 3 }
    scrum := { document.scrum with capacityMinPoints := 2 } }

theorem rollingDocument_validate : rollingDocument.validate = .ok () := by
  decide +kernel

def rollingBlueprint : ResolvedTeamBlueprint where
  toBlueprintDocument := rollingDocument
  accepted := rollingDocument_validate

/-- The first item of the small team is done, the second is carried over and the third is planned.
-/
theorem rollover_frame_smallTeam :
    ∃ store, runTeam utcPlatform (startAfter rollingBlueprint 0)
        (List.replicate 3 (tickUntil utcPlatform rollingBlueprint 4)) = .ok store ∧
      ∃ sprint ∈ store.scrum.sprints, ∃ transition,
        rollActiveSprint store.state sprint sprint.plannedEndAt = .ok transition ∧
        store.scrum.workItems.map (·.lifecycle) = [.DONE, .ACTIVE, .BACKLOG] ∧
        transition.state.statusVisits.length = 1 ∧
        ∃ successor carried planned, RolloverFrame store.scrum.toScrumCollections
          transition.state.toScrumCollections sprint successor sprint.plannedEndAt carried
            planned := by
  have hplayed : (runTeam utcPlatform (startAfter rollingBlueprint 0)
      (List.replicate 3 (tickUntil utcPlatform rollingBlueprint 4))).toOption.any (fun store =>
        store.scrum.workItems.map (·.lifecycle) = [.DONE, .ACTIVE, .BACKLOG] &&
          store.scrum.sprints.any fun sprint =>
            (rollActiveSprint store.state sprint sprint.plannedEndAt).toOption.any fun transition =>
              transition.state.statusVisits.length = 1) = true := by
    decide +kernel
  obtain ⟨store, hrun, hplayed⟩ := exists_of_any hplayed
  simp only [Bool.and_eq_true, decide_eq_true_eq, List.any_eq_true] at hplayed
  obtain ⟨hlifecycles, sprint, hsprint, hrolls⟩ := hplayed
  obtain ⟨transition, hroll, hvisits⟩ := exists_of_any hrolls
  obtain ⟨successor, carried, planned, -, -, hframe, -⟩ :=
    rollover_frame (reachable_of_runTeam hrun) hsprint hroll
  exact ⟨store, hrun, sprint, hsprint, transition, hroll, hlifecycles, of_decide_eq_true hvisits,
    successor, carried, planned, hframe⟩

end JiraSimulator
