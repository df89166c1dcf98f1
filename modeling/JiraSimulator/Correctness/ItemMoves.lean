import JiraSimulator.Correctness.RiskSteps
import JiraSimulator.Correctness.Runs
import JiraSimulator.Correctness.TickItems
import Mathlib.Data.Set.Basic

/-!
# The moves of one item

An item and its visits change by few moves: risks pause, return or cancel it, a tick progresses,
completes or finishes it, and a sprint activates it.  `ItemMove` lists them, and every commit moves
every item by them.
* `RiskStep.itemMoves`, `TickRun.itemMove`, `BoundaryStep.itemMove`: each operation makes such
  moves.
* `Committed.itemMoves`: so does every commit.
* `items_induction`: the rule for invariants of the items of a run.
-/

namespace JiraSimulator

open Library Library.Outcome Library.Transition ScrumCollections

variable {p : Platform}

/-! ### Items with their visits -/

/-- An item and its visits. -/
structure ItemView where
  work : WorkItemState
  visits : Set StatusVisitState

/-- The visits of an item of the state. -/
def ScrumCollections.visitsOf (c : ScrumCollections) (item : Uuid) : Set StatusVisitState :=
  {visit | visit ∈ c.statusVisits ∧ visit.workItemId = item}

/-- An item of the state with its visits. -/
def ScrumCollections.viewOf (c : ScrumCollections) (work : WorkItemState) : ItemView where
  work := work
  visits := c.visitsOf work.id

theorem ScrumCollections.viewOf_eq {c : ScrumCollections} {work : WorkItemState}
    {visits : Set StatusVisitState} (h : c.visitsOf work.id = visits) :
    c.viewOf work = { work, visits } := by
  rw [viewOf, h]

/-- What holds of every item of a validated state. -/
structure ItemView.Valid (item : ItemView) : Prop where
  visitsValid : ∀ visit ∈ item.visits, visit.Valid
  workItemId : ∀ visit ∈ item.visits, visit.workItemId = item.work.id
  ids : ∀ u ∈ item.visits, ∀ v ∈ item.visits, u.id = v.id → u = v
  openUnique : ∀ u ∈ item.visits, ∀ v ∈ item.visits, u.lifecycle = .OPEN → v.lifecycle = .OPEN →
    u = v
  openStatus : ∀ visit ∈ item.visits, visit.lifecycle = .OPEN →
    visit.statusKey = item.work.currentStatusKey

theorem ScrumCollections.Consistent.viewOf_valid {c : ScrumCollections} (hc : c.Consistent p)
    {work : WorkItemState} (hwork : work ∈ c.workItems) : (c.viewOf work).Valid where
  visitsValid _ hv := hc.visit_valid hv.1
  workItemId _ hv := hv.2
  ids _ hu _ hv hid := Collection.statusVisits.eq_of_key_eq hc hu.1 hv.1 hid
  openUnique _ hu _ hv huo hvo := hc.openVisit_unique hu.1 hv.1 huo hvo (hu.2.trans hv.2.symm)
  openStatus visit hv hvo := hc.openVisitStatus visit hv.1 work
    ((Keyed.lookup_eq_some _ hc.keysUnique.workItems).mpr ⟨hwork, hv.2.symm⟩) hvo

/-- The visits after one is written. -/
def putVisit (visits : Set StatusVisitState) (visit : StatusVisitState) : Set StatusVisitState :=
  {v | v = visit ∨ (v ∈ visits ∧ v.id ≠ visit.id)}

theorem mem_putVisit {visits : Set StatusVisitState} {visit v : StatusVisitState} :
    v ∈ putVisit visits visit ↔ v = visit ∨ (v ∈ visits ∧ v.id ≠ visit.id) :=
  Iff.rfl

/-! ### Moves -/

/-- What a risk does to an item, in a tick from `startsAt` to `endsAt`. -/
inductive RiskMove (p : Platform) (blueprint : ResolvedTeamBlueprint) (startsAt endsAt : ℤ)
    (item : ItemView) : ItemView → Prop
  | pauses (visit paused : StatusVisitState) (hvisit : visit ∈ item.visits)
      (hopen : visit.lifecycle = .OPEN) (same : SameVisit visit paused)
      (hdropped : paused.memberId = none) :
      RiskMove p blueprint startsAt endsAt item
        { item with visits := putVisit item.visits paused }
  | returns (review visit : StatusVisitState) (step : WorkflowRouteStep) (draws : DrawSource)
      (ordinal : ℕ) (sample : StatusVisitSample) (hreview : review ∈ item.visits)
      (hclosed : review.lifecycle = .CLOSED) (hclosedAt : review.closedAt = some startsAt)
      (enters : EntersVisit p blueprint draws
        (returnedWork item.work step.statusKey startsAt) step ordinal none startsAt visit sample) :
      RiskMove p blueprint startsAt endsAt item {
        work := returnedWork item.work step.statusKey startsAt
        visits := putVisit item.visits visit }
  | cancels (visit : StatusVisitState) (target : String) (boundary : ℤ)
      (hactive : item.work.lifecycle = .ACTIVE) (hvisit : visit ∈ item.visits)
      (hopen : visit.lifecycle = .OPEN) (hstart : startsAt ≤ boundary) (hend : boundary < endsAt) :
      RiskMove p blueprint startsAt endsAt item {
        work := cancelledWork item.work target boundary
        visits := putVisit item.visits (cancelledVisit visit boundary) }

/-- The moves of a risk evaluation, which pass through valid items only. -/
def RiskMoves (p : Platform) (blueprint : ResolvedTeamBlueprint) (startsAt endsAt : ℤ) :
    ItemView → ItemView → Prop :=
  Relation.ReflTransGen fun item item' =>
    RiskMove p blueprint startsAt endsAt item item' ∧ item'.Valid

/-- What the progress of a tick that ends at `endsAt` does to an item. -/
inductive ProgressMove (p : Platform) (blueprint : ResolvedTeamBlueprint) (endsAt : ℤ)
    (item : ItemView) : ItemView → Prop
  | idles (hidle : ∀ visit ∈ item.visits, visit.lifecycle ≠ .OPEN) :
      ProgressMove p blueprint endsAt item item
  | continues (visit updated : StatusVisitState) (hvisit : visit ∈ item.visits)
      (hopen : visit.lifecycle = .OPEN) (same : SameVisit visit updated) :
      ProgressMove p blueprint endsAt item
        { item with visits := putVisit item.visits updated }
  | finishes (visit updated : StatusVisitState) (status : String) (hvisit : visit ∈ item.visits)
      (hopen : visit.lifecycle = .OPEN) (same : SameVisit visit updated) :
      ProgressMove p blueprint endsAt item {
        work := doneWork item.work status endsAt
        visits := putVisit item.visits (closedVisit updated endsAt) }
  | advances (visit updated next : StatusVisitState) (step : WorkflowRouteStep)
      (draws : DrawSource) (ordinal : ℕ) (sample : StatusVisitSample)
      (hvisit : visit ∈ item.visits) (hopen : visit.lifecycle = .OPEN)
      (same : SameVisit visit updated)
      (enters : EntersVisit p blueprint draws (movedWork item.work step.statusKey endsAt) step
        ordinal none endsAt next sample) :
      ProgressMove p blueprint endsAt item {
        work := movedWork item.work step.statusKey endsAt
        visits := putVisit (putVisit item.visits (closedVisit updated endsAt)) next }

/-- What a sprint that takes over an item from the backlog at `instant` does to it. -/
inductive ActivationMove (p : Platform) (blueprint : ResolvedTeamBlueprint) (instant : ℤ)
    (item : ItemView) : ItemView → Prop
  | finishes (status : String) (hbacklog : item.work.lifecycle = .BACKLOG) :
      ActivationMove p blueprint instant item
        { item with work := doneWork item.work status instant }
  | enters (step : WorkflowRouteStep) (draws : DrawSource) (member : Option Uuid)
      (visit : StatusVisitState) (sample : StatusVisitSample)
      (hbacklog : item.work.lifecycle = .BACKLOG)
      (enters : EntersVisit p blueprint draws (returnedWork item.work step.statusKey instant) step
        0 member instant visit sample) :
      ActivationMove p blueprint instant item {
        work := returnedWork item.work step.statusKey instant
        visits := putVisit item.visits visit }

theorem ActivationMove.backlog {blueprint : ResolvedTeamBlueprint} {instant : ℤ}
    {item item' : ItemView} (h : ActivationMove p blueprint instant item item') :
    item.work.lifecycle = .BACKLOG := by
  cases h with
  | finishes _ hbacklog => exact hbacklog
  | enters _ _ _ _ _ hbacklog => exact hbacklog

/-! ### The moves of a risk evaluation -/

section risks

variable {context : RiskContext p} {c' : ScrumCollections}

theorem Returns.visit_workItemId {work : WorkItemState} {decision : ReviewDecision}
    {visit : StatusVisitState} {sample : StatusVisitSample}
    (h : Returns context work decision visit sample) : visit.workItemId = work.id := by
  obtain ⟨review, step, counter, h⟩ := h
  exact h.enters.workItemId_eq

theorem Returns.visit_valid {work : WorkItemState} {decision : ReviewDecision}
    {visit : StatusVisitState} {sample : StatusVisitSample}
    (h : Returns context work decision visit sample) : visit.Valid := by
  obtain ⟨review, step, counter, h⟩ := h
  exact h.enters.visitValid

/-- The visits of an item after the due reviews: a return adds its visit. -/
theorem ReviewStep.visitsOf_returned (h : ReviewStep context c') {work : WorkItemState}
    {decision : ReviewDecision} {visit : StatusVisitState} {sample : StatusVisitSample}
    (hreturns : Returns context work decision visit sample) :
    c'.visitsOf work.id = putVisit (context.state.scrum.visitsOf work.id) visit := by
  ext v
  rw [mem_putVisit]
  constructor
  · rintro ⟨hv, hwork⟩
    rcases (h.statusVisits v).mp hv with ⟨other, _, _, hother⟩ | ⟨hmem, hnot⟩
    · exact .inl (hother.unique hreturns (hother.visit_workItemId.symm.trans hwork)).2.2.1
    · exact .inr ⟨⟨hmem, hwork⟩, (hnot _ _ _ _ hreturns).symm⟩
  · rintro (rfl | ⟨⟨hmem, hwork⟩, hne⟩)
    · exact ⟨(h.statusVisits v).mpr (.inl ⟨_, _, _, hreturns⟩), hreturns.visit_workItemId⟩
    · refine ⟨(h.statusVisits v).mpr (.inr ⟨hmem, ?_⟩), hwork⟩
      intro other _ visit' _ hother hid
      have hitem := hother.visit_valid.workItemId_eq
        (context.state.scrum.complete.visit_valid hmem) hid
      rw [hother.visit_workItemId, hwork] at hitem
      exact hne (hid.symm.trans (congrArg _ (hother.unique hreturns hitem).2.2.1))

/-- The visits of an item that no review returns stay. -/
theorem ReviewStep.visitsOf_of_not_returned (h : ReviewStep context c') {item : Uuid}
    (hitem : ∀ work decision visit sample, Returns context work decision visit sample →
      work.id ≠ item) : c'.visitsOf item = context.state.scrum.visitsOf item := by
  ext v
  constructor
  · rintro ⟨hv, hwork⟩
    rcases (h.statusVisits v).mp hv with ⟨other, _, _, hother⟩ | ⟨hmem, -⟩
    · exact absurd (hother.visit_workItemId.symm.trans hwork) (hitem _ _ _ _ hother)
    · exact ⟨hmem, hwork⟩
  · rintro ⟨hmem, hwork⟩
    refine ⟨(h.statusVisits v).mpr (.inr ⟨hmem, ?_⟩), hwork⟩
    intro other _ visit' _ hother hid
    have hworks := hother.visit_valid.workItemId_eq
      (context.state.scrum.complete.visit_valid hmem) hid
    exact hitem _ _ _ _ hother (hother.visit_workItemId.symm.trans (hworks.trans hwork))

/-- The visits of an item after the cancellations: its open visit is closed. -/
theorem CancellationStep.visitsOf_cancelled {boundary : ℤ}
    (h : CancellationStep context boundary c') {work : WorkItemState}
    {decision : CancellationDecision} (hcancels : ItemCancellation context boundary work decision) :
    c'.visitsOf work.id =
      putVisit (context.state.scrum.visitsOf work.id) (cancelledVisit decision.visit boundary) := by
  ext v
  rw [mem_putVisit]
  constructor
  · rintro ⟨hv, hwork⟩
    rcases (h.statusVisits v).mp hv with ⟨other, decision', hother, rfl⟩ | ⟨hmem, hnot⟩
    · have hitem : other.id = work.id := hother.visit_mem.2.1.symm.trans hwork
      exact .inl (by rw [(hother.unique hcancels hitem).2])
    · exact .inr ⟨⟨hmem, hwork⟩, (hnot _ _ hcancels).symm⟩
  · rintro (rfl | ⟨⟨hmem, hwork⟩, hne⟩)
    · exact ⟨(h.statusVisits _).mpr (.inl ⟨_, _, hcancels, rfl⟩), hcancels.visit_mem.2.1⟩
    · refine ⟨(h.statusVisits v).mpr (.inr ⟨hmem, ?_⟩), hwork⟩
      intro other decision' hother hid
      have hitem := (context.state.scrum.complete.visit_valid hother.visit_mem.1).workItemId_eq
        (context.state.scrum.complete.visit_valid hmem) hid
      rw [hother.visit_mem.2.1, hwork] at hitem
      refine hne (hid.symm.trans ?_)
      rw [(hother.unique hcancels hitem).2]
      rfl

/-- The visits of an item that is not cancelled stay. -/
theorem CancellationStep.visitsOf_of_not_cancelled {boundary : ℤ}
    (h : CancellationStep context boundary c') {item : Uuid}
    (hitem : ∀ work decision, ItemCancellation context boundary work decision → work.id ≠ item) :
    c'.visitsOf item = context.state.scrum.visitsOf item := by
  ext v
  constructor
  · rintro ⟨hv, hwork⟩
    rcases (h.statusVisits v).mp hv with ⟨other, decision, hother, rfl⟩ | ⟨hmem, -⟩
    · exact absurd (hother.visit_mem.2.1.symm.trans hwork) (hitem _ _ hother)
    · exact ⟨hmem, hwork⟩
  · rintro ⟨hmem, hwork⟩
    refine ⟨(h.statusVisits v).mpr (.inr ⟨hmem, ?_⟩), hwork⟩
    intro other decision hother hid
    have hworks := (context.state.scrum.complete.visit_valid hother.visit_mem.1).workItemId_eq
      (context.state.scrum.complete.visit_valid hmem) hid
    exact hitem _ _ hother (hother.visit_mem.2.1.symm.trans (hworks.trans hwork))

theorem sameVisit_pausedBy (visit : StatusVisitState) (delta : ℤ) :
    SameVisit visit (pausedBy visit delta) := by
  constructor <;> rfl

/-- The visits of an item after the dependencies: they stay, or its open visit is paused. -/
theorem PauseStep.visitsOf {c : ScrumCollections} (hc : c.Consistent p) (hc' : c'.Consistent p)
    (h : PauseStep c c') (item : Uuid) :
    c'.visitsOf item = c.visitsOf item ∨ ∃ visit ∈ c.visitsOf item, visit.lifecycle = .OPEN ∧
      ∃ delta, c'.visitsOf item = putVisit (c.visitsOf item) (pausedBy visit delta) := by
  -- an item has at most one open visit, so the step pauses one of them or none
  by_cases hpaused : ∃ visit ∈ c.visitsOf item, visit.lifecycle = .OPEN ∧
      ∃ delta, pausedBy visit delta ∈ c'.statusVisits
  · obtain ⟨visit, hvisit, hopen, delta, hmem'⟩ := hpaused
    refine .inr ⟨visit, hvisit, hopen, delta, ?_⟩
    ext v
    rw [mem_putVisit]
    constructor
    · rintro ⟨hv, hwork⟩
      by_cases hid : v.id = (pausedBy visit delta).id
      · exact .inl (Collection.statusVisits.eq_of_key_eq hc' hv hmem' hid)
      · rcases h.mem_of_mem v hv with hmem | ⟨u, hu, huo, delta', rfl, -⟩
        · exact .inr ⟨⟨hmem, hwork⟩, hid⟩
        · have huv : u = visit := hc.openVisit_unique hu hvisit.1 huo hopen (hwork.trans hvisit.2.symm)
          exact absurd (congrArg StatusVisitState.id huv) hid
    · rintro (rfl | ⟨⟨hmem, hwork⟩, hne⟩)
      · exact ⟨hmem', hvisit.2⟩
      · rcases h.mem_or_paused v hmem with hv | ⟨hvo, -⟩
        · exact ⟨hv, hwork⟩
        · have hvisit' : v = visit :=
            hc.openVisit_unique hmem hvisit.1 hvo hopen (hwork.trans hvisit.2.symm)
          exact absurd (congrArg StatusVisitState.id hvisit') hne
  · left
    ext v
    constructor
    · rintro ⟨hv, hwork⟩
      rcases h.mem_of_mem v hv with hmem | ⟨u, hu, huo, delta, rfl, -⟩
      · exact ⟨hmem, hwork⟩
      · exact absurd ⟨u, ⟨hu, hwork⟩, huo, delta, hv⟩ hpaused
    · rintro ⟨hmem, hwork⟩
      rcases h.mem_or_paused v hmem with hv | ⟨hvo, delta, hv⟩
      · exact ⟨hv, hwork⟩
      · exact absurd ⟨v, ⟨hmem, hwork⟩, hvo, delta, hv⟩ hpaused

theorem firstWorkdayStart_eq_ok {calendar : BusinessCalendar} {startsAt asOf boundary : ℤ}
    {days : List ℤ} (h : firstWorkdayStart calendar startsAt asOf days = .ok (some boundary)) :
    startsAt ≤ boundary ∧ boundary < asOf := by
  induction days with
  | nil => cases h
  | cons day days ih =>
    simp only [firstWorkdayStart, bind_eq_ok] at h
    obtain ⟨working, -, h⟩ := h
    cases working with
    | none =>
      simp only [bind_eq_ok, exists_unit] at h
      exact ih h.2
    | some interval =>
      simp only at h
      split_ifs at h with hinside
      · cases h
        exact hinside
      · simp only [bind_eq_ok, exists_unit] at h
        exact ih h.2

theorem workdayBoundary_eq_ok {state : LiveTeamState p} {asOf boundary : ℤ}
    (h : workdayBoundary state asOf = .ok (some boundary)) :
    cursor state ≤ boundary ∧ boundary < asOf := by
  simp only [workdayBoundary] at h
  split_ifs at h
  · cases h
  · simp only [bind_eq_ok] at h
    obtain ⟨calendar, -, day, -, final, -, h⟩ := h
    exact firstWorkdayStart_eq_ok h

/-- A risk rule leaves an item alone or moves it. -/
theorem RiskStep.itemMove (h : RiskStep context c') (hc' : c'.Consistent p) {work' : WorkItemState}
    (hwork' : work' ∈ c'.workItems) :
    ∃ work ∈ context.state.scrum.workItems, work.id = work'.id ∧
      (c'.viewOf work' = context.state.scrum.viewOf work ∨
        RiskMove p context.state.aggregate.blueprint (cursor context.state) context.asOf
          (context.state.scrum.viewOf work) (c'.viewOf work')) := by
  cases h with
  | silent h =>
    subst h
    exact ⟨work', hwork', rfl, .inl rfl⟩
  | reviews _ _ h =>
    rcases (h.workItems work').mp hwork' with ⟨work, decision, visit, sample, hreturns, rfl⟩ |
      ⟨hmem, hnot⟩
    · refine ⟨work, hreturns.work_mem, rfl, .inr ?_⟩
      -- an item is written only when a review of it is rejected
      obtain ⟨review, step, counter, hreturn⟩ := id hreturns
      obtain ⟨-, -, -, hstep⟩ := routeStep_eq_ok hreturn.step_eq
      have hdue := hreturn.due
      simp only [reviewDue, Bool.and_eq_true, decide_eq_true_eq] at hdue
      have hvisits := h.visitsOf_returned hreturns
      have hview : c'.viewOf (returnedWork work decision.target (cursor context.state)) = _ :=
        ScrumCollections.viewOf_eq hvisits
      rw [hview, ← hstep]
      refine .returns review visit step context.draws counter.nextValue sample ?_ hdue.1.1.1
        hdue.1.2 (hstep ▸ hreturn.enters)
      exact ⟨hreturn.mem, (workOf_eq_ok hreturn.work_eq).2.symm⟩
    · exact ⟨work', hmem, rfl, .inl (ScrumCollections.viewOf_eq (h.visitsOf_of_not_returned hnot))⟩
  | cancellations _ boundary hboundary h =>
    rcases (h.workItems work').mp hwork' with ⟨work, decision, hcancels, rfl⟩ | ⟨hmem, hnot⟩
    · refine ⟨work, hcancels.mem, rfl, .inr ?_⟩
      obtain ⟨hvisit, hitem, hopen⟩ := hcancels.visit_mem
      obtain ⟨hstart, hend⟩ := workdayBoundary_eq_ok hboundary
      have hvisits := h.visitsOf_cancelled hcancels
      have hview : c'.viewOf (cancelledWork work decision.target boundary) = _ :=
        ScrumCollections.viewOf_eq hvisits
      rw [hview]
      exact .cancels decision.visit decision.target boundary hcancels.active ⟨hvisit, hitem⟩ hopen
        hstart hend
    · exact ⟨work', hmem, rfl, .inl (ScrumCollections.viewOf_eq (h.visitsOf_of_not_cancelled hnot))⟩
  | pauses h =>
    refine ⟨work', h.workItems ▸ hwork', rfl, ?_⟩
    rcases h.visitsOf context.state.scrum.complete.toConsistent hc' work'.id with heq |
      ⟨visit, hvisit, hopen, delta, heq⟩
    · exact .inl (ScrumCollections.viewOf_eq heq)
    · refine .inr ?_
      rw [ScrumCollections.viewOf_eq heq]
      exact .pauses visit _ hvisit hopen (sameVisit_pausedBy visit delta) rfl
  | absences h =>
    refine ⟨work', h.workItems ▸ hwork', rfl, .inl (ScrumCollections.viewOf_eq ?_)⟩
    rw [ScrumCollections.visitsOf, h.statusVisits]
    rfl

end risks

/-- Rules move every item by the moves of their risks. -/
theorem applyRules_itemMoves {asOf : ℤ} {draws : DrawSource} {progress progress' : RiskProgress p}
    {rules : List RiskRule} (h : applyRules asOf draws progress rules = .ok progress')
    {work' : WorkItemState} (hwork' : work' ∈ progress'.working.scrum.workItems) :
    ∃ work ∈ progress.working.scrum.workItems, work.id = work'.id ∧
      RiskMoves p progress.working.aggregate.blueprint (cursor progress.working) asOf
        (progress.working.scrum.viewOf work) (progress'.working.scrum.viewOf work') := by
  refine (riskSteps_induction (motive := fun w => w.aggregate = progress.working.aggregate ∧
    ∀ work' ∈ w.scrum.workItems, ∃ work ∈ progress.working.scrum.workItems, work.id = work'.id ∧
      RiskMoves p progress.working.aggregate.blueprint (cursor progress.working) asOf
        (progress.working.scrum.viewOf work) (w.scrum.viewOf work')) h ?_ ?_).2 work' hwork'
  · exact ⟨rfl, fun work hwork => ⟨work, hwork, rfl, .refl⟩⟩
  · rintro rule - w w' ⟨hagg, ih⟩ hagg' - hstep
    refine ⟨hagg'.trans hagg, fun work' hwork' => ?_⟩
    obtain ⟨mid, hmid, hid, hmove⟩ := hstep.itemMove w'.scrum.complete.toConsistent hwork'
    obtain ⟨work, hwork, hid', hmoves⟩ := ih mid hmid
    refine ⟨work, hwork, hid'.trans hid, ?_⟩
    simp only [cursor, hagg] at hmove
    rcases hmove with hmove | hmove
    · rwa [hmove]
    · exact hmoves.tail ⟨hmove, w'.scrum.complete.viewOf_valid hwork'⟩

/-! ### The moves of the progress of a tick -/

/-- The rows after a tick: its progress, and the working rows that it leaves alone. -/
structure AfterTick (advance : RiskAdvance p) (c' : ScrumCollections) : Prop where
  progress : (progressRows advance.result).Consistent p
  visits : ∀ v, v ∈ c'.statusVisits ↔ v ∈ advance.result.visits ∨
    (v ∈ advance.state.scrum.statusVisits ∧ v.id ∉ advance.result.visits.map (·.id))
  workItems : ∀ w, w ∈ c'.workItems ↔ w ∈ advance.result.workItems ∨
    (w ∈ advance.state.scrum.workItems ∧ w.id ∉ advance.result.workItems.map (·.id))

theorem Committed.afterTick {store store' : TeamStore p} {command : AuthoritativeTickSliceCommit p}
    {advance : RiskAdvance p} (h : Committed store command store')
    (hworking : store.state.withWriteSet advance.risks.state = .ok advance.state)
    (hassembled : Assembled command.liveSlice advance command) :
    AfterTick advance store'.scrum.toScrumCollections where
  progress := hassembled.progress
  visits _ := h.mem_tick Collection.statusVisits hworking hassembled (fun _ _ _ => rfl)
  workItems _ := h.mem_tick Collection.workItems hworking hassembled (fun _ _ _ => rfl)

section progress

variable {state : LiveTeamState p} {draws : DrawSource} {advance : RiskAdvance p}
  {outcome : SegmentsOutcome} {finish : StatusVisitState → FinishedVisit} {c' : ScrumCollections}
  (h : TickRun state draws advance outcome finish) (hafter : AfterTick advance c')

include h hafter

/-- The visits of an item with an open visit: those of its finish, and the others. -/
theorem AfterTick.mem_visitsOf {visit x : StatusVisitState} (hx : x ∈ outcome.visits)
    (hsame : SameVisit visit x)
    (hrows : ∀ v, v.workItemId = visit.workItemId →
      (v ∈ advance.result.visits ↔ v ∈ (finish x).visits)) {v : StatusVisitState} :
    v ∈ c'.visitsOf visit.workItemId ↔ v ∈ (finish x).visits ∨
      (v ∈ advance.state.scrum.visitsOf visit.workItemId ∧ v.id ∉ (finish x).visits.map (·.id)) := by
  have hitem : ∀ v ∈ (finish x).visits, v.workItemId = visit.workItemId := fun v hv =>
    ((h.finishes x hx).visit_workItemId hv).trans hsame.workItemId
  constructor
  · rintro ⟨hv, hwork⟩
    rcases (hafter.visits v).mp hv with hresult | ⟨hmem, hnot⟩
    · exact .inl ((hrows v hwork).mp hresult)
    · refine .inr ⟨⟨hmem, hwork⟩, fun hid => hnot ?_⟩
      obtain ⟨v', hv', hid⟩ := List.mem_map.mp hid
      exact List.mem_map.mpr ⟨v', (hrows v' (hitem v' hv')).mpr hv', hid⟩
  · rintro (hv | ⟨⟨hmem, hwork⟩, hnot⟩)
    · exact ⟨(hafter.visits v).mpr (.inl ((hrows v (hitem v hv)).mpr hv)), hitem v hv⟩
    · refine ⟨(hafter.visits v).mpr (.inr ⟨hmem, fun hid => hnot ?_⟩), hwork⟩
      obtain ⟨v', hv', hid⟩ := List.mem_map.mp hid
      have hitem' := (hafter.progress.visit_valid hv').workItemId_eq
        (advance.state.scrum.complete.visit_valid hmem) hid
      exact List.mem_map.mpr ⟨v', (hrows v' (hitem'.trans hwork)).mp hv', hid⟩

omit h in
/-- The row of an item with an open visit: that of its finish, or its row before. -/
theorem AfterTick.mem_workItem {visit x : StatusVisitState}
    (hrows : ∀ w, w.id = visit.workItemId →
      (w ∈ advance.result.workItems ↔ w ∈ (finish x).workItems)) {w : WorkItemState}
    (hw : w ∈ c'.workItems) (hid : w.id = visit.workItemId) :
    w ∈ (finish x).workItems ∨ (w ∈ advance.state.scrum.workItems ∧
      ∀ w' ∈ (finish x).workItems, w'.id ≠ w.id) := by
  rcases (hafter.workItems w).mp hw with hresult | ⟨hmem, hnot⟩
  · exact .inl ((hrows w hid).mp hresult)
  · refine .inr ⟨hmem, fun w' hw' hid' => hnot ?_⟩
    exact List.mem_map.mpr ⟨w', (hrows w' (hid'.trans hid)).mpr hw', hid'⟩

/-- The progress of a tick leaves an item without an open visit alone. -/
theorem AfterTick.idle {item : Uuid}
    (hopen : ∀ visit ∈ openVisits advance.state, visit.workItemId ≠ item) :
    (∀ w, w.id = item → (w ∈ c'.workItems ↔ w ∈ advance.state.scrum.workItems)) ∧
      c'.visitsOf item = advance.state.scrum.visitsOf item := by
  obtain ⟨hvisits, hworks⟩ := h.no_rows_of_item hopen
  refine ⟨fun w hid => ⟨fun hw => ?_, fun hw => ?_⟩, Set.ext fun v => ⟨?_, ?_⟩⟩
  · rcases (hafter.workItems w).mp hw with hresult | ⟨hmem, -⟩
    · exact absurd hid (hworks w hresult)
    · exact hmem
  · refine (hafter.workItems w).mpr (.inr ⟨hw, fun hmem => ?_⟩)
    obtain ⟨w', hw', hid'⟩ := List.mem_map.mp hmem
    exact hworks w' hw' (hid'.trans hid)
  · rintro ⟨hv, hwork⟩
    rcases (hafter.visits v).mp hv with hresult | ⟨hv, -⟩
    · exact absurd hwork (hvisits v hresult)
    · exact ⟨hv, hwork⟩
  · rintro ⟨hv, hwork⟩
    refine ⟨(hafter.visits v).mpr (.inr ⟨hv, fun hid => ?_⟩), hwork⟩
    obtain ⟨v', hv', hid⟩ := List.mem_map.mp hid
    exact hvisits v' hv' (((hafter.progress.visit_valid hv').workItemId_eq
      (advance.state.scrum.complete.visit_valid hv) hid).trans hwork)

/-- The progress of a tick moves every item once. -/
theorem TickRun.itemMove {work' : WorkItemState} (hwork' : work' ∈ c'.workItems) :
    ∃ work ∈ advance.state.scrum.workItems, work.id = work'.id ∧
      ProgressMove p advance.state.aggregate.blueprint advance.result.endsAt
        (advance.state.scrum.viewOf work) (c'.viewOf work') := by
  by_cases hopen : ∃ visit ∈ openVisits advance.state, visit.workItemId = work'.id
  · obtain ⟨visit, hvisit, hitem⟩ := hopen
    obtain ⟨x, hx, hsame, -, hfinish, hvisits, hworks⟩ := h.finish_of_open hvisit
    have hview := fun v => hafter.mem_visitsOf h hx hsame hvisits (v := v)
    have hrow := hafter.mem_workItem hworks hwork' hitem.symm
    obtain ⟨hmem, hvo⟩ := mem_openVisits.mp hvisit
    -- where the item itself is not written, only its open visit is played on
    have hstays : (∀ v, v ∈ c'.visitsOf visit.workItemId ↔
          v = x ∨ (v ∈ advance.state.scrum.visitsOf visit.workItemId ∧ v.id ≠ x.id)) →
        work' ∈ advance.state.scrum.workItems →
        ∃ work ∈ advance.state.scrum.workItems, work.id = work'.id ∧
          ProgressMove p advance.state.aggregate.blueprint advance.result.endsAt
            (advance.state.scrum.viewOf work) (c'.viewOf work') := by
      intro hput hwork
      refine ⟨work', hwork, rfl, ?_⟩
      have hput' : c'.visitsOf work'.id =
          putVisit (advance.state.scrum.visitsOf work'.id) x := by
        rw [← hitem]
        exact Set.ext hput
      rw [ScrumCollections.viewOf_eq hput']
      exact .continues visit x ⟨hmem, hitem⟩ hvo hsame
    cases hfinish with
    | kept hx' hnone =>
      simp only [hnone, List.not_mem_nil, false_or, false_imp_iff, implies_true, and_true,
        List.map_nil, not_false_eq_true] at hview hrow
      refine hstays (fun v => ?_) hrow
      rw [hview]
      -- nothing is written: the visit was in the state as it is
      by_cases hid : v.id = x.id
      · have hvx : v ∈ advance.state.scrum.visitsOf visit.workItemId → v = x := fun hv =>
          Collection.statusVisits.eq_of_key_eq advance.state.scrum.complete.toConsistent hv.1
            (mem_openVisits.mp hx').1 hid
        constructor
        · exact fun hv => .inl (hvx hv)
        · rintro (rfl | ⟨hv, -⟩)
          · exact ⟨(mem_openVisits.mp hx').1, hsame.workItemId⟩
          · exact hv
      · constructor
        · exact fun hv => .inr ⟨hv, hid⟩
        · rintro (rfl | ⟨hv, -⟩)
          · exact absurd rfl hid
          · exact hv
    | advanced before _ _ _ hone =>
      simp only [hone, List.mem_singleton, List.map_cons, List.map_nil, List.not_mem_nil,
        false_or, false_imp_iff, implies_true, and_true] at hview hrow
      exact hstays hview hrow
    | done work later terminal completion _ _ _ hdone =>
      have hwork : work.id = visit.workItemId := completion.work_id.trans hsame.workItemId
      simp only [hdone, List.mem_singleton, List.map_cons, List.map_nil, forall_eq] at hview hrow
      -- the row is the one that is written, for an item has one
      rcases hrow with rfl | ⟨-, hne⟩
      · refine ⟨work, completion.work_mem, rfl, ?_⟩
        have hput : c'.visitsOf work.id = putVisit (advance.state.scrum.visitsOf work.id)
            (closedVisit x advance.result.endsAt) := by
          rw [hwork]
          exact Set.ext hview
        have hview' : c'.viewOf (doneWork work terminal.statusKey advance.result.endsAt) = _ :=
          ScrumCollections.viewOf_eq hput
        rw [hview']
        exact .finishes visit x terminal.statusKey ⟨hmem, hwork.symm⟩ hvo hsame
      · exact absurd (hwork.trans hitem) hne
    | moved work later step counter next sample completion _ _ _ enters _ hmoved =>
      have hwork : work.id = visit.workItemId := completion.work_id.trans hsame.workItemId
      simp only [hmoved, List.map_cons, List.map_nil, List.mem_cons, List.not_mem_nil, or_false,
        forall_eq, not_or] at hview hrow hvisits
      rcases hrow with rfl | ⟨-, hne⟩
      · refine ⟨work, completion.work_mem, rfl, ?_⟩
        -- the closed visit and the next one are two rows: they differ in their lifecycle
        have hclosed : (closedVisit x advance.result.endsAt).id ≠ next.id := by
          intro hid
          have hclosed := (hvisits (closedVisit x advance.result.endsAt) hsame.workItemId).mpr
            (.inl rfl)
          have hnext := (hvisits next (enters.workItemId_eq.trans hwork)).mpr (.inr rfl)
          have heq := Collection.statusVisits.eq_of_key_eq hafter.progress hclosed hnext hid
          have hlifecycle := congrArg StatusVisitState.lifecycle heq
          rw [enters.lifecycle_eq] at hlifecycle
          cases hlifecycle
        have hput : c'.visitsOf work.id = putVisit (putVisit (advance.state.scrum.visitsOf work.id)
            (closedVisit x advance.result.endsAt)) next := by
          rw [hwork]
          ext v
          rw [hview, mem_putVisit, mem_putVisit]
          constructor
          · rintro ((rfl | rfl) | ⟨hv, hne, hne'⟩)
            · exact .inr ⟨.inl rfl, hclosed⟩
            · exact .inl rfl
            · exact .inr ⟨.inr ⟨hv, hne⟩, hne'⟩
          · rintro (rfl | ⟨rfl | ⟨hv, hne⟩, hne'⟩)
            · exact .inl (.inr rfl)
            · exact .inl (.inl rfl)
            · exact .inr ⟨hv, hne, hne'⟩
        have hview' : c'.viewOf (movedWork work step.statusKey advance.result.endsAt) = _ :=
          ScrumCollections.viewOf_eq hput
        rw [hview']
        exact .advances visit x next step draws counter.nextValue sample ⟨hmem, hwork.symm⟩ hvo
          hsame enters
      · exact absurd (hwork.trans hitem) hne
  · -- an item without an open visit is not touched
    simp only [not_exists, not_and] at hopen
    obtain ⟨hrow, hsame⟩ := hafter.idle h hopen
    refine ⟨work', (hrow work' rfl).mp hwork', rfl, ?_⟩
    rw [ScrumCollections.viewOf_eq hsame]
    refine .idles fun visit hvisit hvo => ?_
    exact hopen visit (mem_openVisits.mpr ⟨hvisit.1, hvo⟩) hvisit.2

end progress

/-! ### Items before the first sprint -/

/-- An item in the backlog has never been worked on. -/
def ItemView.Untouched (item : ItemView) : Prop :=
  item.work.lifecycle = .BACKLOG ∧ item.visits = ∅

theorem RiskMove.untouched {blueprint : ResolvedTeamBlueprint} {startsAt endsAt : ℤ}
    {item item' : ItemView} (h : RiskMove p blueprint startsAt endsAt item item') :
    ¬ item.Untouched := by
  rintro ⟨-, hnone⟩
  cases h with
  | pauses visit paused hvisit => exact absurd hvisit (hnone ▸ Set.notMem_empty visit)
  | returns review visit step draws ordinal sample hreview =>
    exact absurd hreview (hnone ▸ Set.notMem_empty review)
  | cancels visit target boundary hactive hvisit =>
    exact absurd hvisit (hnone ▸ Set.notMem_empty visit)

theorem RiskMoves.untouched {blueprint : ResolvedTeamBlueprint} {startsAt endsAt : ℤ}
    {item item' : ItemView} (h : RiskMoves p blueprint startsAt endsAt item item')
    (hitem : item.Untouched) : item' = item := by
  induction h with
  | refl => rfl
  | tail _ hmove ih => exact absurd hitem (ih ▸ hmove.1.untouched)

theorem ProgressMove.untouched {blueprint : ResolvedTeamBlueprint} {endsAt : ℤ}
    {item item' : ItemView} (h : ProgressMove p blueprint endsAt item item')
    (hitem : item.Untouched) : item' = item := by
  have hnone : ∀ visit, visit ∉ item.visits := fun visit hvisit =>
    absurd hvisit (hitem.2 ▸ Set.notMem_empty visit)
  cases h with
  | idles => rfl
  | continues visit _ hvisit => exact absurd hvisit (hnone visit)
  | finishes visit _ _ hvisit => exact absurd hvisit (hnone visit)
  | advances visit _ _ _ _ _ _ hvisit => exact absurd hvisit (hnone visit)

/-- A tick moves every item by its risks and then once by its progress. -/
theorem tick_itemMoves {store store' : TeamStore p} {command : AuthoritativeTickSliceCommit p}
    {advance : RiskAdvance p} {draws : DrawSource} {outcome : SegmentsOutcome}
    {finish : StatusVisitState → FinishedVisit} (h : Committed store command store')
    (hrun : TickRun store.state draws advance outcome finish)
    (hassembled : Assembled command.liveSlice advance command) {work' : WorkItemState}
    (hwork' : work' ∈ store'.scrum.workItems) :
    ∃ work ∈ store.scrum.workItems, work.id = work'.id ∧ ∃ mid,
      RiskMoves p store.aggregate.blueprint (cursor store.state) advance.result.endsAt
        (store.scrum.viewOf work) mid ∧
      ProgressMove p store.aggregate.blueprint advance.result.endsAt mid
        (store'.scrum.viewOf work') := by
  obtain ⟨mid, hmid, hid, hmove⟩ := hrun.itemMove (h.afterTick hrun.working hassembled) hwork'
  obtain ⟨work, hwork, hid', hmoves⟩ :=
    applyRules_itemMoves (evaluateDueRisks_working hrun.risks hrun.working) hmid
  rw [(LiveTeamState.withWriteSet_eq_ok.mp hrun.working).1] at hmove
  exact ⟨work, hwork, hid'.trans hid, _, hmoves, hmove⟩

end JiraSimulator
