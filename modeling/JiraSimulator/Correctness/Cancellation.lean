import JiraSimulator.Correctness.OpenVisits

/-!
# Cancelled items

A cancelled item has no open visit, and its visits were closed before the simulation time, so no
later evaluation finds a review of it that is due.  Only a rejection in the evaluation of the
cancellation itself can return it.
* `RiskStep.cancelled_stays`: a rule leaves a cancelled item alone unless it returns it.
* `cancelled_stays_of_reachesBy`: every later state of a run holds the item as it is.
-/

namespace JiraSimulator

open Library Library.Outcome Library.Transition ScrumCollections

variable {p : Platform}

/-! ### Times of visits -/

/-- Visits were closed until the simulation time, and those of a cancelled item before it. -/
structure ItemView.Dated (time : ℤ) (item : ItemView) : Prop where
  closedAt_le : ∀ visit ∈ item.visits, ∀ instant, visit.closedAt = some instant → instant ≤ time
  cancelled : item.work.lifecycle = .CANCELLED → ∀ visit ∈ item.visits, ∀ instant,
    visit.closedAt = some instant → instant < time

/-- During the risk evaluation of a tick, visits were closed until its start or before its end. -/
structure ItemView.DatedWithin (startsAt endsAt : ℤ) (item : ItemView) : Prop where
  closedAt_le : ∀ visit ∈ item.visits, ∀ instant, visit.closedAt = some instant →
    instant ≤ startsAt ∨ instant < endsAt
  cancelled : item.work.lifecycle = .CANCELLED → ∀ visit ∈ item.visits, ∀ instant,
    visit.closedAt = some instant → instant < endsAt

theorem ItemView.Dated.within {startsAt endsAt : ℤ} {item : ItemView} (h : item.Dated startsAt)
    (hle : startsAt ≤ endsAt) : item.DatedWithin startsAt endsAt where
  closedAt_le visit hvisit instant hclosed := .inl (h.closedAt_le visit hvisit instant hclosed)
  cancelled hcancelled visit hvisit instant hclosed :=
    lt_of_lt_of_le (h.cancelled hcancelled visit hvisit instant hclosed) hle

/-- A visit of an item was closed when the visit that it updates was. -/
theorem closedAt_of_putVisit {visits : Set StatusVisitState} {visit updated v : StatusVisitState}
    (hvisit : visit ∈ visits) (same : SameVisit visit updated) (hv : v ∈ putVisit visits updated) :
    ∃ u ∈ visits, u.closedAt = v.closedAt := by
  rcases hv with rfl | ⟨hv, -⟩
  · exact ⟨visit, hvisit, same.closedAt.symm⟩
  · exact ⟨v, hv, rfl⟩

theorem RiskMove.datedWithin {blueprint : ResolvedTeamBlueprint} {startsAt endsAt : ℤ}
    {item item' : ItemView} (h : RiskMove p blueprint startsAt endsAt item item')
    (hitem : item.DatedWithin startsAt endsAt) : item'.DatedWithin startsAt endsAt := by
  cases h with
  | pauses visit paused hvisit _ same _ =>
    constructor
    · intro v hv instant hclosed
      obtain ⟨u, hu, hsame⟩ := closedAt_of_putVisit hvisit same hv
      exact hitem.closedAt_le u hu instant (hsame.trans hclosed)
    · intro hcancelled v hv instant hclosed
      obtain ⟨u, hu, hsame⟩ := closedAt_of_putVisit hvisit same hv
      exact hitem.cancelled hcancelled u hu instant (hsame.trans hclosed)
  | returns review visit step draws ordinal sample _ _ _ enters =>
    refine ⟨?_, fun hcancelled => ?_⟩
    · rintro v (rfl | ⟨hv, -⟩) instant hclosed
      · rw [enters.closedAt_eq] at hclosed
        cases hclosed
      · exact hitem.closedAt_le v hv instant hclosed
    · cases hcancelled
  | cancels visit target boundary _ hvisit _ hstart hend =>
    have hlt : ∀ v ∈ putVisit item.visits (cancelledVisit visit boundary), ∀ instant,
        v.closedAt = some instant → instant < endsAt := by
      rintro v (rfl | ⟨hv, -⟩) instant hclosed
      · simp only [cancelledVisit, Option.some.injEq] at hclosed
        omega
      · rcases hitem.closedAt_le v hv instant hclosed with hle | hlt <;> omega
    exact ⟨fun v hv instant hclosed => .inr (hlt v hv instant hclosed), fun _ => hlt⟩

theorem RiskMoves.datedWithin {blueprint : ResolvedTeamBlueprint} {startsAt endsAt : ℤ}
    {item item' : ItemView} (h : RiskMoves p blueprint startsAt endsAt item item')
    (hitem : item.DatedWithin startsAt endsAt) : item'.DatedWithin startsAt endsAt := by
  induction h with
  | refl => exact hitem
  | tail _ hmove ih => exact hmove.1.datedWithin ih

theorem ProgressMove.dated {blueprint : ResolvedTeamBlueprint} {startsAt endsAt : ℤ}
    {item item' : ItemView} (h : ProgressMove p blueprint endsAt item item')
    (hle : startsAt ≤ endsAt) (hmatched : item.Matched)
    (hitem : item.DatedWithin startsAt endsAt) : item'.Dated endsAt := by
  -- every visit that was closed before the tick was closed by its end
  have hbefore : ∀ v ∈ item.visits, ∀ instant, v.closedAt = some instant → instant ≤ endsAt := by
    intro v hv instant hclosed
    rcases hitem.closedAt_le v hv instant hclosed with hle | hlt <;> omega
  cases h with
  | idles => exact ⟨hbefore, hitem.cancelled⟩
  | continues visit updated hvisit _ same =>
    constructor
    · intro v hv instant hclosed
      obtain ⟨u, hu, hsame⟩ := closedAt_of_putVisit hvisit same hv
      exact hbefore u hu instant (hsame.trans hclosed)
    · intro hcancelled v hv instant hclosed
      obtain ⟨u, hu, hsame⟩ := closedAt_of_putVisit hvisit same hv
      exact hitem.cancelled hcancelled u hu instant (hsame.trans hclosed)
  | finishes visit updated status _ _ _ =>
    refine ⟨?_, fun hcancelled => ?_⟩
    · rintro v (rfl | ⟨hv, -⟩) instant hclosed
      · simp only [closedVisit, Option.some.injEq] at hclosed
        omega
      · exact hbefore v hv instant hclosed
    · cases hcancelled
  | advances visit updated next step draws ordinal sample hvisit hopen _ enters =>
    refine ⟨?_, fun hcancelled => ?_⟩
    · rintro v (rfl | ⟨rfl | ⟨hv, -⟩, -⟩) instant hclosed
      · rw [enters.closedAt_eq] at hclosed
        cases hclosed
      · simp only [closedVisit, Option.some.injEq] at hclosed
        omega
      · exact hbefore v hv instant hclosed
    · -- only an active item advances
      have hcancelled : item.work.lifecycle = .CANCELLED := hcancelled
      rw [hmatched.active hvisit hopen] at hcancelled
      cases hcancelled

theorem ActivationMove.dated {blueprint : ResolvedTeamBlueprint} {time instant : ℤ}
    {item item' : ItemView} (h : ActivationMove p blueprint instant item item')
    (hmatched : item.Matched) : item'.Dated time := by
  cases h with
  | finishes status hbacklog =>
    rw [hmatched.backlog hbacklog]
    exact ⟨fun v hv => hv.elim, fun _ v hv => hv.elim⟩
  | enters step draws member visit sample hbacklog enters =>
    rw [hmatched.backlog hbacklog]
    refine ⟨?_, fun hcancelled => ?_⟩
    · rintro v (rfl | ⟨hv, -⟩) closed hclosed
      · rw [enters.closedAt_eq] at hclosed
        cases hclosed
      · cases hv
    · cases hcancelled

theorem dated_of_reachable {store : TeamStore p} (h : (teamRuns p).Reachable store) :
    ∀ work ∈ store.scrum.workItems,
      (store.scrum.viewOf work).Dated store.aggregate.runtime.simulationTime := by
  suffices hboth : ∀ work ∈ store.scrum.workItems, (store.scrum.viewOf work).Matched ∧
      (store.scrum.viewOf work).Dated store.aggregate.runtime.simulationTime from
    fun work hwork => (hboth work hwork).2
  refine items_induction (I := fun time item => item.Matched ∧ item.Dated time) h ?_ ?_ ?_ ?_
  · rintro time time' item hle ⟨hmatched, hdated⟩
    refine ⟨hmatched, fun v hv instant hclosed => ?_, fun hcancelled v hv instant hclosed => ?_⟩
    · exact (hdated.closedAt_le v hv instant hclosed).trans hle
    · exact lt_of_lt_of_le (hdated.cancelled hcancelled v hv instant hclosed) hle
  · exact fun time work hbacklog => ⟨matched_of_backlog hbacklog, fun v hv => hv.elim,
      fun _ v hv => hv.elim⟩
  · rintro blueprint time instant item item' - ⟨hmatched, -⟩ hmove
    exact ⟨hmove.matched hmatched, hmove.dated hmatched⟩
  · rintro blueprint startsAt endsAt item mid item' hle hvalid - ⟨hmatched, hdated⟩ hmoves hmove
    obtain ⟨hvalid', hmatched'⟩ := hmoves.matched hvalid hmatched
    exact ⟨hmove.matched hvalid' hmatched',
      hmove.dated hle hmatched' (hmoves.datedWithin (hdated.within hle))⟩

/-! ### One rule -/

/-- The item is in the state as it was, with the visits that it had. -/
structure Holds (c : ScrumCollections) (item : ItemView) : Prop where
  work_mem : item.work ∈ c.workItems
  visits_eq : c.visitsOf item.work.id = item.visits

/-- A rule leaves a cancelled item alone unless it rejects one of its reviews. -/
theorem RiskStep.cancelled_stays {context : RiskContext p} {c' : ScrumCollections}
    (h : RiskStep context c') (hc' : c'.Consistent p) {item : ItemView}
    (hholds : Holds context.state.scrum.toScrumCollections item)
    (hcancelled : item.work.lifecycle = .CANCELLED)
    (hclosed : ∀ visit ∈ item.visits, visit.lifecycle ≠ .OPEN)
    (haccepted : context.rule.key = "REVIEW_REJECTION" → context.rule.trigger = "STATUS_EXITED" →
      ∀ review decision, ReviewVerdict context review item.work decision →
        decision.evidence.outcome = false) :
    Holds c' item := by
  obtain ⟨hmem, hvisits⟩ := hholds
  -- the item is the only one with its id, so a rule that writes it finds it cancelled
  have hunique : ∀ work ∈ context.state.scrum.workItems, work.id = item.work.id →
      work = item.work := fun work hwork hid =>
    Collection.workItems.eq_of_key_eq context.state.scrum.complete.toConsistent hwork hmem hid
  cases h with
  | silent h => exact h ▸ ⟨hmem, hvisits⟩
  | reviews hkey htrigger h =>
    have hnot : ∀ work decision visit sample, Returns context work decision visit sample →
        work.id ≠ item.work.id := by
      rintro work decision visit sample hreturns hid
      obtain rfl := hunique work hreturns.work_mem hid
      obtain ⟨review, step, counter, hreturn⟩ := hreturns
      have hrejected := hreturn.rejected
      rw [haccepted hkey htrigger review decision hreturn.toReviewVerdict] at hrejected
      cases hrejected
    exact ⟨(h.workItems _).mpr (.inr ⟨hmem, hnot⟩),
      (h.visitsOf_of_not_returned hnot).trans hvisits⟩
  | cancellations _ boundary _ h =>
    have hnot : ∀ work decision, ItemCancellation context boundary work decision →
        work.id ≠ item.work.id := by
      intro work decision hcancels hid
      have hactive := hcancels.active
      rw [hunique work hcancels.mem hid, hcancelled] at hactive
      cases hactive
    exact ⟨(h.workItems _).mpr (.inr ⟨hmem, hnot⟩),
      (h.visitsOf_of_not_cancelled hnot).trans hvisits⟩
  | pauses h =>
    refine ⟨h.workItems ▸ hmem, ?_⟩
    rcases h.visitsOf context.state.scrum.complete.toConsistent hc' item.work.id with hsame |
      ⟨visit, hvisit, hopen, -⟩
    · exact hsame.trans hvisits
    · exact absurd hopen (hclosed visit (hvisits ▸ hvisit))
  | absences h =>
    refine ⟨h.workItems ▸ hmem, ?_⟩
    rw [ScrumCollections.visitsOf, h.statusVisits]
    exact hvisits

/-! ### One evaluation -/

/-- No rule of the list rejects a due review of the item. -/
def AcceptsReviewsOf (asOf : ℤ) (draws : DrawSource) (progress : RiskProgress p)
    (rules : List RiskRule) (work : WorkItemState) : Prop :=
  ∀ before rule after reached, rules = before ++ rule :: after →
    applyRules asOf draws progress before = .ok reached →
      rule.key = "REVIEW_REJECTION" → rule.trigger = "STATUS_EXITED" → ∀ review decision,
        ReviewVerdict { state := reached.working, asOf, draws, rule } review work decision →
          decision.evidence.outcome = false

/-- The rules leave a cancelled item alone unless one of them rejects one of its reviews. -/
theorem applyRules_cancelled_stays {asOf : ℤ} {draws : DrawSource}
    {progress progress' : RiskProgress p} {rules : List RiskRule} {item : ItemView}
    (h : applyRules asOf draws progress rules = .ok progress')
    (hholds : Holds progress.working.scrum.toScrumCollections item)
    (hcancelled : item.work.lifecycle = .CANCELLED)
    (hclosed : ∀ visit ∈ item.visits, visit.lifecycle ≠ .OPEN)
    (haccepts : ∀ before rule after reached, rules = before ++ rule :: after →
      applyRules asOf draws progress before = .ok reached →
      reached.working.aggregate = progress.working.aggregate →
      Holds reached.working.scrum.toScrumCollections item →
      rule.key = "REVIEW_REJECTION" → rule.trigger = "STATUS_EXITED" → ∀ review decision,
        ReviewVerdict { state := reached.working, asOf, draws, rule } review item.work decision →
          decision.evidence.outcome = false) :
    Holds progress'.working.scrum.toScrumCollections item := by
  refine (foldlM_prefix_induction (motive := fun reached : RiskProgress p =>
    reached.working.aggregate = progress.working.aggregate ∧
      Holds reached.working.scrum.toScrumCollections item) h ⟨rfl, hholds⟩ ?_).2
  rintro before rule after reached reached' hrules hbefore ⟨hagg, hreached⟩ hrule
  obtain ⟨hagg', -, hstep⟩ := applyRule_riskStep hrule
  exact ⟨hagg'.trans hagg, hstep.cancelled_stays reached'.working.scrum.complete.toConsistent
    hreached hcancelled hclosed (haccepts before rule after reached hrules hbefore hagg hreached)⟩

/-- The item of a validated state, when it is cancelled, has no open visit. -/
theorem Matched.closed {item : ItemView} (h : item.Matched)
    (hcancelled : item.work.lifecycle = .CANCELLED) :
    ∀ visit ∈ item.visits, visit.lifecycle ≠ .OPEN := by
  intro visit hvisit hopen
  have hactive := h.active hvisit hopen
  rw [hcancelled] at hactive
  cases hactive

/-! ### One tick -/

theorem AfterTick.holds {state : LiveTeamState p} {draws : DrawSource} {advance : RiskAdvance p}
    {outcome : SegmentsOutcome} {finish : StatusVisitState → FinishedVisit} {c' : ScrumCollections}
    {item : ItemView} (h : TickRun state draws advance outcome finish)
    (hafter : AfterTick advance c')
    (hholds : Holds advance.state.scrum.toScrumCollections item)
    (hclosed : ∀ visit ∈ item.visits, visit.lifecycle ≠ .OPEN) : Holds c' item := by
  have hidle : ∀ visit ∈ openVisits advance.state, visit.workItemId ≠ item.work.id := by
    intro visit hvisit hid
    obtain ⟨hmem, hopen⟩ := mem_openVisits.mp hvisit
    refine hclosed visit ?_ hopen
    rw [← hholds.visits_eq]
    exact ⟨hmem, hid⟩
  obtain ⟨hrow, hvisits⟩ := hafter.idle h hidle
  exact ⟨(hrow _ rfl).mpr hholds.work_mem, hvisits.trans hholds.visits_eq⟩

/-- A commit leaves an item alone that was cancelled before it. -/
theorem Committed.cancelled_stays {store store' : TeamStore p} {event : TeamEvent}
    {command : AuthoritativeTickSliceCommit p} (hreach : (teamRuns p).Reachable store)
    (hof : CommandOf store.state event command) (hcommitted : Committed store command store')
    {item : ItemView} (hholds : Holds store.scrum.toScrumCollections item)
    (hcancelled : item.work.lifecycle = .CANCELLED) :
    Holds store'.scrum.toScrumCollections item := by
  obtain ⟨hmem, hvisits⟩ := hholds
  have hview : store.scrum.viewOf item.work = item := ScrumCollections.viewOf_eq hvisits
  have hmatched : item.Matched := hview ▸ matched_of_reachable hreach item.work hmem
  have hdated : item.Dated store.aggregate.runtime.simulationTime :=
    hview ▸ dated_of_reachable hreach item.work hmem
  cases hof with
  | tick request draws advance _ _ hadvance _ _ hassembled =>
    obtain ⟨outcome, finish, hrun⟩ := tickAdvance_eq_ok hadvance
    refine AfterTick.holds hrun (hcommitted.afterTick hrun.working hassembled) ?_
      (Matched.closed hmatched hcancelled)
    refine applyRules_cancelled_stays (evaluateDueRisks_working hrun.risks hrun.working)
      ⟨hmem, hvisits⟩ hcancelled (Matched.closed hmatched hcancelled) ?_
    -- A due review was closed at the cursor, but those of a cancelled item were closed before it.
    intro before rule after reached _ _ hagg hreached _ _ review decision hverdict
    have hdue := hverdict.due
    simp only [reviewDue, Bool.and_eq_true, decide_eq_true_eq] at hdue
    have hvisit : review ∈ item.visits := by
      rw [← hreached.visits_eq]
      exact ⟨hverdict.mem, (workOf_eq_ok hverdict.work_eq).2.symm⟩
    have hlt := hdated.cancelled hcancelled review hvisit _ hdue.1.2
    simp only [cursor, hagg] at hlt
    exact absurd hlt (lt_irrefl _)
  | boundary instant transition _ hstep _ hstate =>
    obtain ⟨work', hwork', hid⟩ :=
      hcommitted.mem_keys Collection.workItems (fun _ _ _ => rfl) hmem
    obtain ⟨work, hwork, hid', hsame | hmove⟩ := boundary_itemMove hcommitted
      (PlannedFirst.of_reachable hreach) hstep hstate hwork'
    all_goals
      have hwork' : work = item.work := Collection.workItems.eq_of_key_eq
        store.scrum.complete.toConsistent hwork hmem (hid'.trans hid)
      subst hwork'
    · have hwork'' : work' = item.work := congrArg ItemView.work hsame
      subst hwork''
      exact ⟨by assumption, (congrArg ItemView.visits hsame).trans hvisits⟩
    · have hbacklog : item.work.lifecycle = .BACKLOG := hmove.backlog
      rw [hcancelled] at hbacklog
      cases hbacklog
  | downtime hempty =>
    refine ⟨(hcommitted.mem_of_empty Collection.workItems (fun _ _ _ => rfl) hempty).mpr hmem, ?_⟩
    exact (congrArg ItemView.visits (hcommitted.viewOf_of_empty hempty item.work)).trans hvisits

/-- Every later state of a run holds an item that was cancelled. -/
theorem cancelled_stays_of_reachesBy {store later : TeamStore p} {item : ItemView}
    (hreach : (teamRuns p).Reachable store)
    (hlater : (teamRuns p).ReachesBy (fun _ _ => True) store later)
    (hholds : Holds store.scrum.toScrumCollections item)
    (hcancelled : item.work.lifecycle = .CANCELLED) :
    Holds later.scrum.toScrumCollections item := by
  refine hlater.invariant (I := fun s => Holds s.scrum.toScrumCollections item) hreach hholds ?_
  intro s event s' hs hheld _ hstep
  have hbased := Based.of_reachable hs
  rcases stepTeam_eq_ok hbased.loaded hstep with ⟨startedAt, -, hprovision⟩ | rfl |
    ⟨command, -, hof, hcommitted⟩
  · rw [(provision_eq_ok hbased hprovision).same]
    exact hheld
  · exact hheld
  · exact hcommitted.cancelled_stays hs hof hheld hcancelled

/-- After the cancellation rule of a tick has cancelled an item, the later rules, the progress of
the tick and every later commit leave the item and its visits as they are, unless a later rule of
the same evaluation rejects a due review of the item. -/
theorem cancellation_terminal {store store' later : TeamStore p} {request : TickRequest}
    {draws : DrawSource} {advance : RiskAdvance p} (hreach : (teamRuns p).Reachable store)
    (htick : ProgressTick store request draws advance store')
    {before after : List RiskRule} {rule : RiskRule} {progress progress' : RiskProgress p}
    (hrules : store.aggregate.blueprint.risks.rules = before ++ rule :: after)
    (hbefore : applyRules advance.result.endsAt draws { working := store.state, records := {} }
      before = .ok progress)
    (_hkey : rule.key = "CANCELLATION")
    (hrule : applyRule advance.result.endsAt draws progress rule = .ok progress')
    {work : WorkItemState} (hwork : work ∈ progress'.working.scrum.workItems)
    (hcancelled : work.lifecycle = .CANCELLED)
    (haccepts : AcceptsReviewsOf advance.result.endsAt draws progress' after work)
    (hlater : (teamRuns p).ReachesBy (fun _ _ => True) store' later) :
    (∀ applied rest reached, after = applied ++ rest →
      applyRules advance.result.endsAt draws progress' applied = .ok reached →
      Holds reached.working.scrum.toScrumCollections (progress'.working.scrum.viewOf work)) ∧
    Holds later.scrum.toScrumCollections (progress'.working.scrum.viewOf work) := by
  have hbased := Based.of_reachable hreach
  obtain ⟨command, hcommitted, -, hassembled⟩ := htick.committed hbased
  obtain ⟨outcome, finish, hrun⟩ := tickAdvance_eq_ok htick.advance_eq
  have hholds : Holds progress'.working.scrum.toScrumCollections
      (progress'.working.scrum.viewOf work) := ⟨hwork, rfl⟩
  -- a cancelled item has no open visit
  have hclosed : ∀ visit ∈ (progress'.working.scrum.viewOf work).visits,
      visit.lifecycle ≠ .OPEN := by
    have hfirst : applyRules advance.result.endsAt draws { working := store.state, records := {} }
        (before ++ [rule]) = .ok progress' :=
      foldlM_append_eq_ok.mpr ⟨progress, hbefore, by simp [hrule]⟩
    obtain ⟨original, horiginal, -, hmoves⟩ := applyRules_itemMoves hfirst hwork
    have hmatched := (hmoves.matched (store.scrum.complete.viewOf_valid horiginal)
      (matched_of_reachable hreach original horiginal)).2
    exact Matched.closed hmatched hcancelled
  -- the rules that follow leave it, since they reject none of its reviews
  have happlied : ∀ applied rest reached, after = applied ++ rest →
      applyRules advance.result.endsAt draws progress' applied = .ok reached →
      Holds reached.working.scrum.toScrumCollections (progress'.working.scrum.viewOf work) := by
    intro applied rest reached hafter happlied
    refine applyRules_cancelled_stays happlied hholds hcancelled hclosed ?_
    intro asked next others between happlied' hbetween _ _
    exact haccepts asked next (others ++ rest) between
      (by rw [hafter, happlied', List.append_assoc, List.cons_append]) hbetween
  refine ⟨happlied, ?_⟩
  -- the state at the end of the tick is the one after the last rule
  have hworking : Holds advance.state.scrum.toScrumCollections
      (progress'.working.scrum.viewOf work) := by
    have hall := evaluateDueRisks_working hrun.risks hrun.working
    rw [show store.state.aggregate.blueprint.risks.rules = _ from hrules, applyRules,
      foldlM_append_eq_ok] at hall
    obtain ⟨reached, hreached, hall⟩ := hall
    have hsame : progress = reached := Except.ok.inj (hbefore.symm.trans hreached)
    subst hsame
    rw [List.foldlM_cons, bind_eq_ok] at hall
    obtain ⟨reached, hreached, hall⟩ := hall
    have hsame : progress' = reached := Except.ok.inj (hrule.symm.trans hreached)
    subst hsame
    exact happlied after [] _ (List.append_nil after).symm hall
  exact cancelled_stays_of_reachesBy (.step hreach trivial htick.step) hlater
    (AfterTick.holds hrun (hcommitted.afterTick hrun.working hassembled) hworking hclosed)
    hcancelled

/-! ### A cancellation that does not hold -/

theorem smallDocument_cancelRejecting :
    (smallDocument [cancellationRule, rejectionRule] 7 20 0).validate = .ok () := by
  decide +kernel

/-- The small team, with every active item cancelled at the start of a workday and every review
rejected. -/
def cancelRejectingBlueprint : ResolvedTeamBlueprint where
  toBlueprintDocument := smallDocument [cancellationRule, rejectionRule] 7 20 0
  accepted := smallDocument_cancelRejecting

/-- The part of a tick up to its first rule. -/
def playFirstRule {p : Platform} (store : TeamStore p) (request : TickRequest) (draws : DrawSource)
    (rule : RiskRule) : Result ((RiskAdvance p × TeamStore p) × RiskProgress p) := do
  let played ← playTick store request draws
  let progress ← applyRule played.1.result.endsAt draws { working := store.state, records := {} } rule
  return (played, progress)

/-- A tick of the small team cancels its item in code review and leaves it active in development. -/
theorem cancelled_item_returns :
    ∃ store, runTeam utcPlatform (startAfter cancelRejectingBlueprint 1)
        [tickUntil utcPlatform cancelRejectingBlueprint 30,
          tickUntil utcPlatform cancelRejectingBlueprint 30] = .ok store ∧
      ∃ advance store', ProgressTick store (requestUntil cancelRejectingBlueprint 25)
          (teamDraws utcPlatform cancelRejectingBlueprint) advance store' ∧
        store.aggregate.blueprint.risks.rules = [cancellationRule, rejectionRule] ∧
        ∃ progress, applyRule advance.result.endsAt (teamDraws utcPlatform cancelRejectingBlueprint)
            { working := store.state, records := {} } cancellationRule = .ok progress ∧
          ∃ work ∈ progress.working.scrum.workItems, work.lifecycle = .CANCELLED ∧
            ∃ work' ∈ store'.scrum.workItems, work'.id = work.id ∧ work'.lifecycle = .ACTIVE ∧
              work'.currentStatusKey = "DEV" := by
  obtain ⟨work', h⟩ := exists_of_succeeds (do
    let store ← runTeam utcPlatform (startAfter cancelRejectingBlueprint 1)
        [tickUntil utcPlatform cancelRejectingBlueprint 30,
          tickUntil utcPlatform cancelRejectingBlueprint 30]
    require (store.aggregate.blueprint.risks.rules = [cancellationRule, rejectionRule]) ""
    let result ← playFirstRule store (requestUntil cancelRejectingBlueprint 25)
      (teamDraws utcPlatform cancelRejectingBlueprint) cancellationRule
    let work ← next (fun work => work.lifecycle = .CANCELLED) result.2.working.scrum.workItems
    next (fun work' => work'.id = work.id ∧ work'.lifecycle = .ACTIVE ∧
      work'.currentStatusKey = "DEV") result.1.2.scrum.workItems) (by decide +kernel)
  simp only [bind_eq_ok, exists_unit, require_eq_ok, playFirstRule, pure_eq_ok] at h
  obtain ⟨store, hrun, hrules, -, ⟨played, hplayed, progress, hprogress, rfl⟩, work, hwork,
    hwork'⟩ := h
  obtain ⟨hmem, hcancelled⟩ := mem_of_next hwork
  obtain ⟨hmem', hreturned⟩ := mem_of_next hwork'
  exact ⟨store, hrun, played.1, played.2, playTick_eq_ok hplayed, hrules, progress, hprogress, work,
    hmem, of_decide_eq_true hcancelled, work', hmem', of_decide_eq_true hreturned⟩

/-- The rule that accepts every review. -/
def acceptingRule : RiskRule :=
  { rejectionRule with baseProbability := 0 }

/-- A rule of probability zero rejects no review. -/
theorem ReviewVerdict.accepted {context : RiskContext p} {review : StatusVisitState}
    {work : WorkItemState} {decision : ReviewDecision}
    (h : ReviewVerdict context review work decision) (hbase : context.rule.baseProbability ≤ 0)
    (hclamp : context.rule.clamp.min ≤ 0) : decision.evidence.outcome = false := by
  have hdecided := h.decided
  simp only [reviewDecision, bind_eq_ok, exists_unit, pure_eq_ok] at hdecided
  obtain ⟨probability, hprobability, target, -, -, step, -, people, -, projection, -, rfl⟩ :=
    hdecided
  have hzero : probability ≤ 0 := by
    rw [probabilityOf, show context.atCursor.rule = context.rule from rfl, if_pos hbase, pure_bind,
      pure_eq_ok] at hprobability
    rw [← hprobability]
    exact (min_le_right _ _).trans (max_le hclamp le_rfl)
  have hdraw : 0 ≤ drawUnit context.draws review.id .RISK_REVIEW_REJECTION_OUTCOME := by
    unfold drawUnit UniformDraw.unitValue
    positivity
  exact decide_eq_false (not_lt.mpr (hzero.trans hdraw))

theorem smallDocument_cancelAccepting :
    (smallDocument [cancellationRule, acceptingRule] 7 20 0).validate = .ok () := by
  decide +kernel

/-- The small team, with every active item cancelled at the start of a workday and every review
accepted. -/
def cancelAcceptingBlueprint : ResolvedTeamBlueprint where
  toBlueprintDocument := smallDocument [cancellationRule, acceptingRule] 7 20 0
  accepted := smallDocument_cancelAccepting

/-- A tick of the small team cancels its item in code review, and the later rule finds that review
due and accepts it: the item stays cancelled through the next tick. -/
theorem cancellation_terminal_smallTeam :
    ∃ store store' later : TeamStore utcPlatform, ∃ advance progress work review decision,
      ProgressTick store (requestUntil cancelAcceptingBlueprint 25)
        (teamDraws utcPlatform cancelAcceptingBlueprint) advance store' ∧
      applyRule advance.result.endsAt (teamDraws utcPlatform cancelAcceptingBlueprint)
        { working := store.state, records := {} } cancellationRule = .ok progress ∧
      ReviewVerdict { state := progress.working, asOf := advance.result.endsAt
                      draws := teamDraws utcPlatform cancelAcceptingBlueprint
                      rule := acceptingRule } review work decision ∧
      stepTeam store' (tickUntil utcPlatform cancelAcceptingBlueprint 26) = .ok later ∧
      work.lifecycle = .CANCELLED ∧ work ∈ later.scrum.workItems := by
  -- the tick cancels an item, and the rule after it accepts a review of the item
  obtain ⟨result, h⟩ := exists_of_succeeds (do
    let store ← runTeam utcPlatform (startAfter cancelAcceptingBlueprint 1)
        [tickUntil utcPlatform cancelAcceptingBlueprint 30,
          tickUntil utcPlatform cancelAcceptingBlueprint 30]
    require (store.aggregate.blueprint.risks.rules = [cancellationRule, acceptingRule]) ""
    let result ← playFirstRule store (requestUntil cancelAcceptingBlueprint 25)
      (teamDraws utcPlatform cancelAcceptingBlueprint) cancellationRule
    let context : RiskContext utcPlatform := {
      state := result.2.working, asOf := result.1.1.result.endsAt
      draws := teamDraws utcPlatform cancelAcceptingBlueprint, rule := acceptingRule }
    let review ← next (fun visit => reviewDue context.state context.asOf visit)
      result.2.working.scrum.statusVisits
    let work ← workOf context.state review.workItemId
    require (work.lifecycle = .CANCELLED) ""
    let decision ← reviewDecision context.atCursor work review
    let later ← stepTeam result.1.2 (tickUntil utcPlatform cancelAcceptingBlueprint 26)
    return (work, decision.target, later)) (by decide +kernel)
  simp only [bind_eq_ok, exists_unit, require_eq_ok, playFirstRule, pure_eq_ok] at h
  obtain ⟨store, hrun, hrules, -, ⟨played, hplayed, progress, hprogress, rfl⟩, review, hreview, work,
    hwork, hcancelled, decision, hdecision, later, hlater, rfl⟩ := h
  obtain ⟨hmem, hdue⟩ := mem_of_next hreview
  have htick := playTick_eq_ok hplayed
  have hrules' : store.aggregate.blueprint.risks.rules = [] ++ cancellationRule :: [acceptingRule] :=
    hrules
  have hnone : applyRules played.1.result.endsAt (teamDraws utcPlatform cancelAcceptingBlueprint)
      { working := store.state, records := {} } [] = .ok _ := rfl
  have haccepts : AcceptsReviewsOf played.1.result.endsAt
      (teamDraws utcPlatform cancelAcceptingBlueprint) progress [acceptingRule] work := by
    intro before rule after reached hsplit _ _ _ review decision hverdict
    have hrule : rule = acceptingRule := by
      have hmem : rule ∈ [acceptingRule] := hsplit ▸ List.mem_append_right _ List.mem_cons_self
      exact List.mem_singleton.mp hmem
    subst hrule
    exact hverdict.accepted le_rfl le_rfl
  refine ⟨store, played.2, later, played.1, progress, work, review, decision, htick, hprogress,
    ⟨hmem, hdue, hwork, hdecision⟩, hlater, hcancelled, ?_⟩
  exact (cancellation_terminal (reachable_of_runTeam hrun) htick hrules' hnone rfl hprogress
    (workOf_eq_ok hwork).1 hcancelled haccepts (.single ⟨_, trivial, hlater⟩)).2.work_mem

end JiraSimulator
