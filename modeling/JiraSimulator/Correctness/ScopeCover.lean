import JiraSimulator.Correctness.Scripts
import JiraSimulator.Correctness.VisitRows

/-!
# The scope of the active sprint

The current scope rows belong to the active sprint, and every active item has one, as long as no
item returns without one: an item whose last review was closed at the very end of a sprint is done
when the sprint rolls over, so its scope row is closed, and a rejection of that review then makes it
active again.
-/

namespace JiraSimulator

open Library Library.Outcome Library.Transition ScrumCollections

variable {p : Platform}

/-- The item has a current scope row. -/
def Scoped (c : ScrumCollections) (item : Uuid) : Prop :=
  ∃ entry ∈ c.sprintScope, entry.workItemId = item ∧ entry.removedAt = none

/-- Current scope rows belong to the active sprint, and active items have one. -/
structure ScopeCovered (c : ScrumCollections) : Prop where
  current : ∀ entry ∈ c.sprintScope, entry.removedAt = none →
    ∃ sprint ∈ c.sprints, sprint.id = entry.sprintId ∧ sprint.lifecycle = .ACTIVE
  active : ∀ work ∈ c.workItems, work.lifecycle = .ACTIVE → Scoped c work.id

/-- Every item that a rejected review of the tick returns has a current scope row. -/
def ReturnsScoped (store : TeamStore p) (event : TeamEvent) : Prop :=
  ∀ context, Evaluates store.state event context →
    context.rule.key = "REVIEW_REJECTION" → context.rule.trigger = "STATUS_EXITED" →
    ∀ review work decision, ReviewVerdict context review work decision →
      decision.evidence.outcome = true → Scoped store.scrum.toScrumCollections work.id

/-! ### Bootstrap -/

theorem Bootstrapped.scopeCovered {start : TeamStart} {draws : DrawSource}
    {context : BootstrapContext} {picked : List Uuid} {initial : ScrumStateWriteSet p}
    {store : TeamStore p} (h : Bootstrapped start draws context picked initial store) :
    ScopeCovered store.scrum.toScrumCollections := by
  have hrows := h.initialRows
  constructor
  · intro entry hentry hcurrent
    have hscope : entry ∈ initial.sprintScope := (h.mem_rows Collection.sprintScope).mp hentry
    rw [hrows.scope, List.mem_map] at hscope
    obtain ⟨item, hitem, rfl⟩ := hscope
    have hpicked : item ∈ picked := (Ordering.sortOn_perm _ _).mem_iff.mp hitem
    refine ⟨context.sprint, (h.mem_rows Collection.sprints).mpr ?_, rfl, ?_⟩
    · show _ ∈ initial.sprints
      rw [hrows.sprints]
      exact List.mem_singleton_self _
    · rcases (initialSprint_eq_ok hrows.sprint_eq).2.2 with hplanned | hactive
      · rw [hrows.planned hplanned] at hpicked
        cases hpicked
      · exact hactive.1
  · intro work hwork hactive
    rcases (hrows.workItems work).mp ((h.mem_rows Collection.workItems).mp hwork) with
      ⟨item, -, hpicked, activated, hactivated, rfl⟩ | ⟨hmem, -⟩
    · refine ⟨initialScopeEntry start.aggregate context.sprint.id start.startedAt item.id,
        (h.mem_rows Collection.sprintScope).mpr ?_, (activateItem_id hactivated).symm, rfl⟩
      show _ ∈ initial.sprintScope
      rw [hrows.scope]
      exact List.mem_map_of_mem ((Ordering.sortOn_perm _ _).mem_iff.mpr hpicked)
    · have hbacklog := (rankedBacklog_eq_ok hrows.items_eq work hmem).lifecycle
      rw [hbacklog] at hactive
      cases hactive

/-! ### Ticks -/

/-- A rule makes items active only by returns. -/
theorem RiskStep.active_scoped {context : RiskContext p} {c' : ScrumCollections}
    {covered : Uuid → Prop} (h : RiskStep context c')
    (hbefore : ∀ work ∈ context.state.scrum.workItems, work.lifecycle = .ACTIVE → covered work.id)
    (hreturns : context.rule.key = "REVIEW_REJECTION" → context.rule.trigger = "STATUS_EXITED" →
      ∀ review work decision, ReviewVerdict context review work decision →
        decision.evidence.outcome = true → covered work.id) :
    ∀ work ∈ c'.workItems, work.lifecycle = .ACTIVE → covered work.id := by
  intro work hwork hactive
  cases h with
  | silent h => exact hbefore work (h ▸ hwork) hactive
  | reviews hkey htrigger h =>
    rcases (h.workItems work).mp hwork with ⟨old, decision, visit, sample, hreturn, rfl⟩ | ⟨hstays, -⟩
    · obtain ⟨review, step, counter, hreturn⟩ := hreturn
      exact hreturns hkey htrigger review old decision hreturn.toReviewVerdict hreturn.rejected
    · exact hbefore work hstays hactive
  | cancellations hkey boundary hboundary h =>
    rcases (h.workItems work).mp hwork with ⟨old, decision, -, rfl⟩ | ⟨hstays, -⟩
    · cases hactive
    · exact hbefore work hstays hactive
  | pauses h =>
    rw [h.workItems] at hwork
    exact hbefore work hwork hactive
  | absences h =>
    rw [h.workItems] at hwork
    exact hbefore work hwork hactive

/-- The active items during a risk evaluation whose returned items have a scope row. -/
theorem applyRules_active_scoped {store : TeamStore p} {event : TeamEvent} {draws : DrawSource}
    {advance : RiskAdvance p} {progress : RiskProgress p}
    (hadvances : TickAdvances store.state event draws advance) (hscoped : ReturnsScoped store event)
    (hcovered : ScopeCovered store.scrum.toScrumCollections)
    (h : applyRules advance.result.endsAt draws { working := store.state, records := {} }
      store.aggregate.blueprint.risks.rules = .ok progress) :
    ∀ work ∈ progress.working.scrum.workItems, work.lifecycle = .ACTIVE →
      Scoped store.scrum.toScrumCollections work.id := by
  refine hadvances.rules_induction (motive := fun progress : RiskProgress p =>
    ∀ work ∈ progress.working.scrum.workItems, work.lifecycle = .ACTIVE →
      Scoped store.scrum.toScrumCollections work.id) h hcovered.active ?_
  intro rule reached reached' _ hevaluates hactive hstep
  obtain ⟨-, -, hrisk⟩ := applyRule_riskStep hstep
  exact hrisk.active_scoped hactive (hscoped _ hevaluates)

/-- The progress of a tick makes no item active. -/
theorem TickRun.active_before {state : LiveTeamState p} {draws : DrawSource} {advance : RiskAdvance p}
    {outcome : SegmentsOutcome} {finish : StatusVisitState → FinishedVisit}
    (h : TickRun state draws advance outcome finish) {work : WorkItemState}
    (hwork : work ∈ advance.result.workItems) (hactive : work.lifecycle = .ACTIVE) :
    ∃ before ∈ advance.state.scrum.workItems, before.id = work.id ∧ before.lifecycle = .ACTIVE := by
  obtain ⟨x, hx, hmem⟩ := h.mem_workItems.mp hwork
  cases h.finishes x hx with
  | kept _ heq =>
    rw [heq] at hmem
    cases hmem
  | advanced _ _ _ _ heq =>
    rw [heq] at hmem
    cases hmem
  | done _ _ _ _ _ _ _ heq =>
    rw [heq, List.mem_singleton] at hmem
    subst hmem
    cases hactive
  | moved before _ _ _ _ _ completion _ _ _ _ _ heq =>
    rw [heq, List.mem_singleton] at hmem
    subst hmem
    exact ⟨before, completion.work_mem, rfl, hactive⟩

theorem Committed.scopeCovered_of_tick {store store' : TeamStore p}
    {command : AuthoritativeTickSliceCommit p} {event : TeamEvent} {draws : DrawSource}
    {advance : RiskAdvance p} (hcommitted : Committed store command store')
    (hadvances : TickAdvances store.state event draws advance)
    (hassembled : Assembled command.liveSlice advance command)
    (hscoped : ReturnsScoped store event)
    (hcovered : ScopeCovered store.scrum.toScrumCollections) :
    ScopeCovered store'.scrum.toScrumCollections := by
  obtain ⟨outcome, finish, hrun⟩ := hadvances.tickRun
  obtain ⟨hsprints, hscope⟩ := hcommitted.tick_frame hrun hassembled
  have hafter := hcommitted.afterTick hrun.working hassembled
  have hworking := applyRules_active_scoped hadvances hscoped hcovered
    (evaluateDueRisks_working hrun.risks hrun.working)
  have hkept : ∀ item, Scoped store.scrum.toScrumCollections item →
      Scoped store'.scrum.toScrumCollections item := fun item ⟨entry, hentry, hentryItem⟩ =>
    ⟨entry, (hscope entry).mpr hentry, hentryItem⟩
  constructor
  · intro entry hentry hcurrent
    obtain ⟨sprint, hsprint, hsame⟩ := hcovered.current entry ((hscope entry).mp hentry) hcurrent
    exact ⟨sprint, (hsprints sprint).mpr hsprint, hsame⟩
  · intro work hwork hactive
    rcases (hafter.workItems work).mp hwork with hwritten | ⟨hstays, -⟩
    · obtain ⟨before, hbefore, hid, hactive'⟩ := hrun.active_before hwritten hactive
      exact hid ▸ hkept _ (hworking before hbefore hactive')
    · exact hkept _ (hworking work hstays hactive)

/-! ### Sprint boundaries -/

/-- The active items of the sprint that ends are carried over. -/
theorem mem_carryoverIds_of_active {state : LiveTeamState p} {sprintId : Uuid} {ids : List Uuid}
    (h : carryoverIds state sprintId = .ok ids) {work : WorkItemState}
    (hwork : work ∈ state.scrum.workItems) (hactive : work.lifecycle = .ACTIVE)
    {entry : SprintScopeEntry} (hentry : entry ∈ state.scrum.sprintScope)
    (hsprint : entry.sprintId = sprintId) (hcurrent : entry.removedAt = none)
    (hitem : entry.workItemId = work.id) : work.id ∈ ids := by
  simp only [carryoverIds, bind_eq_ok, pure_eq_ok] at h
  obtain ⟨items, hitems, rfl⟩ := h
  have hmem : entry ∈ state.scrum.sprintScope.filter fun entry =>
      entry.sprintId = sprintId && entry.removedAt.isNone := by
    simp [hentry, hsprint, hcurrent]
  obtain ⟨item, hmem', hget⟩ := exists_of_mem_of_mapM hitems hmem
  obtain ⟨hitem', hid⟩ := getItem_eq_ok hget
  have hsame : item = work := List.inj_on_of_nodup_map state.scrum.complete.keysUnique.workItems
    hitem' hwork (hid.trans hitem)
  subst hsame
  exact List.mem_map_of_mem (List.mem_filter.mpr ⟨hmem', by simp [hactive]⟩)

/-- An item that a sprint has activated is among the selected ones. -/
theorem Activation.mem_selected {blueprint : ResolvedTeamBlueprint} {startedAt : ℤ}
    {members : List MemberIdentity} {draws : DrawSource} {items workItems : List WorkItemState}
    {selected : List Uuid} {visits : List StatusVisitState} {samples : List StatusVisitSample}
    (h : Activation p blueprint startedAt members draws items selected workItems visits samples)
    {work : WorkItemState} (hwork : work ∈ workItems) : work.id ∈ selected := by
  obtain ⟨item, -, hselected, activated, hactivated, rfl⟩ := (h.workItems work).mp hwork
  exact (activateItem_id hactivated).symm ▸ hselected

theorem Committed.scopeCovered_of_boundary {store store' : TeamStore p}
    {command : AuthoritativeTickSliceCommit p} {instant : ℤ} {transition : SprintTransition p}
    (hcommitted : Committed store command store')
    (hplanned : PlannedFirst store.scrum.toScrumCollections)
    (hstep : BoundaryStep store.state instant transition) (hstate : command.state = transition.state)
    (hcovered : ScopeCovered store.scrum.toScrumCollections) :
    ScopeCovered store'.scrum.toScrumCollections := by
  have hsprints : ∀ sprint, sprint ∈ store'.scrum.sprints ↔ sprint ∈ transition.state.sprints ∨
      (sprint ∈ store.scrum.sprints ∧ sprint.id ∉ transition.state.sprints.map (·.id)) :=
    fun _ => hstate ▸ hcommitted.mem_rows Collection.sprints fun _ _ _ => rfl
  have hscope : ∀ entry, entry ∈ store'.scrum.sprintScope ↔ entry ∈ transition.state.sprintScope ∨
      (entry ∈ store.scrum.sprintScope ∧ entry.id ∉ transition.state.sprintScope.map (·.id)) :=
    fun _ => hstate ▸ hcommitted.mem_rows Collection.sprintScope fun _ _ _ => rfl
  have hitems : ∀ work, work ∈ store'.scrum.workItems ↔ work ∈ transition.state.workItems ∨
      (work ∈ store.scrum.workItems ∧ work.id ∉ transition.state.workItems.map (·.id)) :=
    fun _ => hstate ▸ hcommitted.mem_rows Collection.workItems fun _ _ _ => rfl
  have hunique := store.scrum.complete.toConsistent
  cases hstep with
  | quiet h =>
    subst h
    constructor
    · intro entry hentry hcurrent
      obtain ⟨sprint, hsprint, hsame⟩ := hcovered.current entry
        (((hscope entry).mp hentry).resolve_left (by rintro ⟨⟩)).1 hcurrent
      exact ⟨sprint, (hsprints sprint).mpr (.inr ⟨hsprint, by rintro ⟨⟩⟩), hsame⟩
    · intro work hwork hactive
      obtain ⟨entry, hentry, hsame⟩ := hcovered.active work
        (((hitems work).mp hwork).resolve_left (by rintro ⟨⟩)).1 hactive
      exact ⟨entry, (hscope entry).mpr (.inr ⟨hentry, by rintro ⟨⟩⟩), hsame⟩
  | activates sprint draws selected context hmem hlifecycle _ _ _ hactivation _ _ hnewSprints
      hnewScope _ h =>
    subst h
    obtain ⟨-, huntouched, hnone⟩ := hplanned sprint hmem hlifecycle
    constructor
    · intro entry hentry hcurrent
      rcases (hscope entry).mp hentry with hnew | ⟨hold, -⟩
      · rw [show (activationTransition context).state = context.writeSet from rfl, hnewScope,
          List.mem_map] at hnew
        obtain ⟨item, -, rfl⟩ := hnew
        refine ⟨activatedSprint sprint instant, (hsprints _).mpr (.inl ?_), rfl, rfl⟩
        rw [show (activationTransition context).state = context.writeSet from rfl, hnewSprints]
        exact List.mem_singleton_self _
      · rw [hnone] at hold
        cases hold
    · intro work hwork hactive
      rcases (hitems work).mp hwork with hnew | ⟨hold, -⟩
      · refine ⟨newScopeEntry store.state sprint.id instant work.id, (hscope _).mpr (.inl ?_), rfl,
          rfl⟩
        rw [show (activationTransition context).state = context.writeSet from rfl, hnewScope]
        exact List.mem_map_of_mem (hactivation.mem_selected hnew)
      · rw [(show work.lifecycle = .BACKLOG from (huntouched work hold).1)] at hactive
        cases hactive
  | rolls sprint successor draws carryIds backlogIds context counter hmem hlifecycle _ _ hcarry _
      hactivation _ _ _ hsuccessor _ hnewSprints hnewScope _ h =>
    subst h
    -- the current rows of the state are those of the sprint that ends
    have hcurrentOf : ∀ entry ∈ store.scrum.sprintScope, entry.removedAt = none →
        entry.sprintId = sprint.id := by
      intro entry hentry hcurrent
      obtain ⟨other, hother, hid, hactive⟩ := hcovered.current entry hentry hcurrent
      rw [← hid, hunique.activeSprint_unique hother hmem hactive hlifecycle]
    have hnewEntry : ∀ item ∈ carryIds ++ backlogIds,
        Scoped store'.scrum.toScrumCollections item := by
      intro item hitem
      refine ⟨newScopeEntry store.state successor.id instant item, (hscope _).mpr (.inl ?_), rfl, rfl⟩
      rw [show (rolloverTransition context).state = context.writeSet from rfl, hnewScope]
      exact List.mem_append_right _ (List.mem_map_of_mem hitem)
    constructor
    · intro entry hentry hcurrent
      rcases (hscope entry).mp hentry with hnew | ⟨hold, hnot⟩
      · rw [show (rolloverTransition context).state = context.writeSet from rfl, hnewScope,
          List.mem_append] at hnew
        rcases hnew with hclosed | hnew
        · obtain ⟨old, -, rfl⟩ := List.mem_map.mp hclosed
          cases hcurrent
        · obtain ⟨item, -, rfl⟩ := List.mem_map.mp hnew
          refine ⟨successor, (hsprints _).mpr (.inl ?_), rfl, hsuccessor.2.1⟩
          rw [show (rolloverTransition context).state = context.writeSet from rfl, hnewSprints]
          exact List.mem_cons_of_mem _ (List.mem_singleton_self _)
      · refine absurd (List.mem_map.mpr ⟨{ entry with removedAt := some instant }, ?_, rfl⟩) hnot
        rw [show (rolloverTransition context).state = context.writeSet from rfl, hnewScope]
        refine List.mem_append_left _ (List.mem_map.mpr ⟨entry, ?_, rfl⟩)
        refine List.mem_filter.mpr ⟨hold, ?_⟩
        simp [hcurrentOf entry hold hcurrent, hcurrent]
    · intro work hwork hactive
      rcases (hitems work).mp hwork with hnew | ⟨hold, -⟩
      · exact hnewEntry _ (List.mem_append_right _ (hactivation.mem_selected hnew))
      · obtain ⟨entry, hentry, hitem, hcurrent⟩ := hcovered.active work hold hactive
        exact hnewEntry _ (List.mem_append_left _ (mem_carryoverIds_of_active hcarry hold hactive
          hentry (hcurrentOf entry hentry hcurrent) hcurrent hitem))

/-! ### Runs -/

theorem scopeCovered_of_reachableBy {store : TeamStore p}
    (h : (teamRuns p).ReachableBy (fun _ => True) ReturnsScoped store) :
    ScopeCovered store.scrum.toScrumCollections := by
  refine run_induction (I := fun store => ScopeCovered store.scrum.toScrumCollections) h ?_ ?_ ?_
  · exact fun _ _ _ _ _ _ _ hboot => hboot.scopeCovered
  · intro store store' _ hcovered hprovision
    rw [hprovision.same]
    exact hcovered
  · intro store event command store' hreach hcovered hok _ hof hcommitted
    cases hof with
    | tick request draws advance hevent hquiet hadvance _ _ hassembled =>
      exact hcommitted.scopeCovered_of_tick (.intro request hevent hquiet hadvance) hassembled hok
        hcovered
    | boundary instant transition _ hstep _ hstate =>
      exact hcommitted.scopeCovered_of_boundary (.of_reachable hreach) hstep hstate hcovered
    | downtime hempty =>
      have hsame : ∀ {α κ : Type} [DecidableEq κ] (col : Collection α κ), AfterImage col →
          ∀ {a : α}, a ∈ col.rows store'.scrum.toScrumCollections ↔
            a ∈ col.rows store.scrum.toScrumCollections :=
        fun col hcol => hcommitted.mem_of_empty col hcol hempty
      constructor
      · intro entry hentry hcurrent
        obtain ⟨sprint, hsprint, hid⟩ := hcovered.current entry
          ((hsame .sprintScope fun _ _ _ => rfl).mp hentry) hcurrent
        exact ⟨sprint, (hsame .sprints fun _ _ _ => rfl).mpr hsprint, hid⟩
      · intro work hwork hactive
        obtain ⟨entry, hentry, hid⟩ := hcovered.active work
          ((hsame .workItems fun _ _ _ => rfl).mp hwork) hactive
        exact ⟨entry, (hsame .sprintScope fun _ _ _ => rfl).mpr hentry, hid⟩

/-- The current scope rows of an item. -/
def scopeRowsOf (store : TeamStore p) (work : WorkItemState) : List SprintScopeEntry :=
  store.scrum.sprintScope.filter fun entry => entry.workItemId = work.id && entry.removedAt.isNone

/-- In runs that return only items with a current scope row, every active item has exactly one, and
it belongs to the active sprint. -/
theorem scope_covers_active {store : TeamStore p}
    (h : (teamRuns p).ReachableBy (fun _ => True) ReturnsScoped store) :
    ∀ work ∈ store.scrum.workItems, work.lifecycle = .ACTIVE → ∃ entry,
      scopeRowsOf store work = [entry] ∧ ∃ sprint ∈ store.scrum.sprints,
        sprint.id = entry.sprintId ∧ sprint.lifecycle = .ACTIVE := by
  intro work hwork hactive
  have hcovered := scopeCovered_of_reachableBy h
  have hcomplete := store.scrum.complete
  have hmem : ∀ entry, entry ∈ scopeRowsOf store work ↔ entry ∈ store.scrum.sprintScope ∧
      entry.workItemId = work.id ∧ entry.removedAt = none := by
    intro entry
    simp [scopeRowsOf]
  obtain ⟨entry, hentry, hitem, hcurrent⟩ := hcovered.active work hwork hactive
  refine ⟨entry, ?_, hcovered.current entry hentry hcurrent⟩
  refine List.perm_singleton.mp ((List.perm_ext_iff_of_nodup ?_ ?_).mpr fun other => ?_)
  · exact (List.Nodup.of_map _ hcomplete.keysUnique.sprintScope).filter _
  · exact List.nodup_singleton entry
  · rw [hmem, List.mem_singleton]
    constructor
    · rintro ⟨hother, hitem', hcurrent'⟩
      exact hcomplete.currentScope_unique hother hentry hcurrent' hcurrent (hitem'.trans hitem.symm)
    · rintro rfl
      exact ⟨hentry, hitem, hcurrent⟩

/-- The visits of the state belong to items with a current scope row. -/
def VisitsScoped (c : ScrumCollections) : Prop :=
  ∀ visit ∈ c.statusVisits, Scoped c visit.workItemId

instance (c : ScrumCollections) : Decidable (VisitsScoped c) :=
  inferInstanceAs (Decidable (∀ visit ∈ c.statusVisits, ∃ entry ∈ c.sprintScope,
    entry.workItemId = visit.workItemId ∧ entry.removedAt = none))

/-- A team with one rule returns only items with visits. -/
theorem VisitsScoped.returnsScoped {store : TeamStore p} {event : TeamEvent} {rule : RiskRule}
    (h : VisitsScoped store.scrum.toScrumCollections)
    (hrule : store.aggregate.blueprint.risks.rules = [rule]) : ReturnsScoped store event := by
  intro context hevaluates _ _ review work decision hverdict _
  obtain ⟨-, hstate⟩ := hevaluates.of_singleton hrule
  have hmem := hverdict.mem
  rw [hstate] at hmem
  exact (workOf_eq_ok hverdict.work_eq).2 ▸ h review hmem

/-! ### Returned items -/

/-- The small team with one review after development. -/
def oneReviewDocument (dev qa : ℚ) : BlueprintDocument :=
  let document := smallDocument [rejectionRule] dev 0 qa
  { document with
    workflow := { document.workflow with
      routes := [{ issueType := .STORY, steps := [
        ⟨"BACKLOG", none⟩, ⟨"DEV", some "develop"⟩, ⟨"QA", some "develop"⟩, ⟨"DONE", none⟩] }] } }

theorem oneReviewDocument_accepted : (oneReviewDocument 2 2).validate = .ok () := by
  decide +kernel

/-- The small team with one review and items of four hours. -/
def oneReviewBlueprint : ResolvedTeamBlueprint where
  toBlueprintDocument := oneReviewDocument 2 2
  accepted := oneReviewDocument_accepted

/-- The first item of the small team is done, its review is rejected in the next tick, and it is
active again with its place in the sprint. -/
theorem scope_covers_active_smallTeam :
    ∃ store store' : TeamStore utcPlatform, ∃ context review work decision,
      Evaluates store.state (tickUntil utcPlatform oneReviewBlueprint 5) context ∧
      ReviewVerdict context review work decision ∧ decision.evidence.outcome = true ∧
      stepTeam store (tickUntil utcPlatform oneReviewBlueprint 5) = .ok store' ∧
      ∀ work ∈ store'.scrum.workItems, work.lifecycle = .ACTIVE → ∃ entry,
        scopeRowsOf store' work = [entry] ∧ ∃ sprint ∈ store'.scrum.sprints,
          sprint.id = entry.sprintId ∧ sprint.lifecycle = .ACTIVE := by
  -- the third tick rejects a review that the second one closed
  obtain ⟨result, h⟩ := exists_of_succeeds (do
    let first ← ensureBootstrapped (createdStore utcPlatform (startAfter oneReviewBlueprint 0))
      (startAfter oneReviewBlueprint 0).startedAt
    require (first.aggregate.blueprint.risks.rules = [rejectionRule] ∧
      VisitsScoped first.scrum.toScrumCollections) ""
    let second ← stepTeam first (tickUntil utcPlatform oneReviewBlueprint 5)
    require (second.aggregate.blueprint.risks.rules = [rejectionRule] ∧
      VisitsScoped second.scrum.toScrumCollections) ""
    let store ← stepTeam second (tickUntil utcPlatform oneReviewBlueprint 5)
    require (store.aggregate.blueprint.risks.rules = [rejectionRule] ∧
      VisitsScoped store.scrum.toScrumCollections) ""
    let played ← playTick store (requestUntil oneReviewBlueprint 5)
      (teamDraws utcPlatform oneReviewBlueprint)
    let context : RiskContext utcPlatform := {
      state := store.state, asOf := played.1.result.endsAt
      draws := teamDraws utcPlatform oneReviewBlueprint, rule := rejectionRule }
    let review ← next (fun visit => reviewDue context.state context.asOf visit)
      store.scrum.statusVisits
    let work ← workOf context.state review.workItemId
    let decision ← reviewDecision context.atCursor work review
    require (decision.evidence.outcome = true) ""
    return decision.target) (by decide +kernel)
  simp only [bind_eq_ok, exists_unit, require_eq_ok, pure_eq_ok] at h
  obtain ⟨first, hfirst, ⟨hrules, hscoped⟩, second, hsecond, ⟨hrules', hscoped'⟩, store, hstore,
    ⟨hrules'', hscoped''⟩, ⟨advance, store'⟩, hplayed, review, hreview, work, hwork, decision,
    hdecision, hrejected, -⟩ := h
  obtain ⟨hmem, hdue⟩ := mem_of_next hreview
  obtain ⟨hquiet, hadvance, hstep⟩ := playTick_eq_ok hplayed
  -- each state met on the way has a scope row for every open visit
  have hreach : (teamRuns utcPlatform).ReachableBy (fun _ => True) ReturnsScoped store :=
    .step (.step (.start hfirst trivial) (hscoped.returnsScoped hrules) hsecond)
      (hscoped'.returnsScoped hrules') hstore
  have hadvances : TickAdvances store.state (tickUntil utcPlatform oneReviewBlueprint 5)
      (teamDraws utcPlatform oneReviewBlueprint) advance := .intro _ rfl hquiet hadvance
  have hnone : applyRules advance.result.endsAt (teamDraws utcPlatform oneReviewBlueprint)
      { working := store.state, records := {} } [] =
      .ok { working := store.state, records := {} } := rfl
  have hevaluates : Evaluates store.state (tickUntil utcPlatform oneReviewBlueprint 5) {
      state := store.state, asOf := advance.result.endsAt
      draws := teamDraws utcPlatform oneReviewBlueprint, rule := rejectionRule } :=
    .intro advance [] [] {} hadvances rfl hrules'' hnone
  exact ⟨store, store', _, review, work, decision, hevaluates,
    ⟨hmem, hdue, hwork, hdecision⟩, hrejected, hstep,
    scope_covers_active (.step hreach (hscoped''.returnsScoped hrules'') hstep)⟩

/-! ### An active item without scope -/

/-- The team with one review, sprints of one day from noon on, and items that take a day. -/
def noonDocument : BlueprintDocument :=
  let document := oneReviewDocument 2 6
  { document with
    scrum := { document.scrum with
      cadenceDays := 1, firstBoundary := firstMonday + 3 * microsecondsPerHour } }

theorem noonDocument_accepted : noonDocument.validate = .ok () := by
  decide +kernel

def noonBlueprint : ResolvedTeamBlueprint where
  toBlueprintDocument := noonDocument
  accepted := noonDocument_accepted

/-- The review of an item is closed at the end of the first sprint, the sprint rolls over without
the item, and the review is rejected. -/
theorem returned_item_unscoped :
    ∃ store, runTeam utcPlatform (startAfter noonBlueprint 3) [
        tickUntil utcPlatform noonBlueprint 40, tickUntil utcPlatform noonBlueprint 40,
        tickUntil utcPlatform noonBlueprint 40, tickUntil utcPlatform noonBlueprint 28] = .ok store ∧
      ∃ work ∈ store.scrum.workItems, work.lifecycle = .ACTIVE ∧ scopeRowsOf store work = [] := by
  obtain ⟨work, h⟩ := exists_of_succeeds (do
    let store ← runTeam utcPlatform (startAfter noonBlueprint 3) [
      tickUntil utcPlatform noonBlueprint 40, tickUntil utcPlatform noonBlueprint 40,
      tickUntil utcPlatform noonBlueprint 40, tickUntil utcPlatform noonBlueprint 28]
    next (fun work => work.lifecycle = .ACTIVE ∧ scopeRowsOf store work = []) store.scrum.workItems)
    (by decide +kernel)
  simp only [bind_eq_ok] at h
  obtain ⟨store, hrun, hwork⟩ := h
  obtain ⟨hmem, hunscoped⟩ := mem_of_next hwork
  exact ⟨store, hrun, work, hmem, of_decide_eq_true hunscoped⟩

end JiraSimulator
