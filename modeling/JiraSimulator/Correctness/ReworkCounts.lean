import JiraSimulator.Correctness.Decisions
import Mathlib.Data.Set.Card

/-!
# Closed visits and recorded rejections

What a step adds to the closed visits of an item and to its recorded rejections.  A tick that
advances closes the visits that a cancellation or the progress ends and records the reviews that are
rejected; every other step leaves both alone.

* `closedVisitCount_step`: the closed visits of an item after a step.
* `rejections_step`: the recorded rejections of an item after a step.
-/

namespace JiraSimulator

open Library Library.Outcome Library.Transition ScrumCollections

variable {p : Platform}

/-! ### Counts -/

/-- The review that a record sends back. -/
def rejectedReview (draft : GroundTruthRecordDraft) : Option Uuid :=
  match draft.semanticKey, draft.payload with
  | .risk _ _ _ rule entity _, .riskEvaluation record =>
    if rule = "REVIEW_REJECTION" ∧ record.outcome = true then some entity else none
  | _, _ => none

/-- Is the visit a closed one of the item? -/
def isClosedOf (item : Uuid) (visit : StatusVisitState) : Bool :=
  visit.workItemId = item && visit.lifecycle = .CLOSED

/-- Does the record send back a closed visit of the item? -/
def rejects (visits : List StatusVisitState) (item : Uuid) (draft : GroundTruthRecordDraft) :
    Bool :=
  (rejectedReview draft).any fun review =>
    visits.any fun visit => visit.id = review && isClosedOf item visit

/-- The recorded rejections of an item. -/
def rejections (store : TeamStore p) (item : Uuid) : ℕ :=
  store.groundTruth.countP (rejects store.scrum.statusVisits item)

/-! ### What a tick closes and rejects -/

/-- The visit is complete at the end of the segments that the tick plays. -/
def CompletesVisit (state : LiveTeamState p) (advance : RiskAdvance p)
    (visit : StatusVisitState) : Prop :=
  ∃ calendar segments outcome sample, state.calendar = .ok calendar ∧
    businessSegments advance.state calendar (cursor state) advance.result.endsAt = .ok segments ∧
    runSegments advance.state calendar (riskBlockedVisits state advance.risks)
      advance.result.endsAt segments (openVisits advance.state) (consumptionMap advance.state) =
        .ok outcome ∧
    visit ∈ outcome.visits ∧
    getItem (·.visitId) advance.state.scrum.statusVisitSamples visit.id = .ok sample ∧
    isComplete visit sample advance.result.endsAt calendar = .ok true

/-- The event closes the visit of the item: a cancellation of the item does, or the end of the tick
at which the visit is complete. -/
inductive ClosesVisit (store : TeamStore p) (event : TeamEvent) (item : Uuid) : Uuid → Prop
  | cancelled (context : RiskContext p) (boundary : ℤ) (work : WorkItemState)
      (decision : CancellationDecision) (hevaluates : Evaluates store.state event context)
      (hkey : context.rule.key = "CANCELLATION")
      (hverdict : CancellationVerdict context boundary work decision)
      (houtcome : decision.evidence.outcome = true) (hitem : work.id = item) :
      ClosesVisit store event item decision.visit.id
  | completed (draws : DrawSource) (advance : RiskAdvance p) (visit : StatusVisitState)
      (hadvances : TickAdvances store.state event draws advance)
      (hcompletes : CompletesVisit store.state advance visit) (hitem : visit.workItemId = item) :
      ClosesVisit store event item visit.id

/-- The event rejects the review of the item. -/
inductive RejectsReview (store : TeamStore p) (event : TeamEvent) (item : Uuid) : Uuid → Prop
  | rejected (context : RiskContext p) (review : StatusVisitState) (work : WorkItemState)
      (decision : ReviewDecision) (hevaluates : Evaluates store.state event context)
      (hkey : context.rule.key = "REVIEW_REJECTION")
      (htrigger : context.rule.trigger = "STATUS_EXITED")
      (hverdict : ReviewVerdict context review work decision)
      (houtcome : decision.evidence.outcome = true) (hitem : work.id = item) :
      RejectsReview store event item review.id

/-- The visits of the item that the event closes. -/
def closings (store : TeamStore p) (event : TeamEvent) (item : Uuid) : Set Uuid :=
  {id | ClosesVisit store event item id}

/-- The reviews of the item that the event rejects. -/
def sentBack (store : TeamStore p) (event : TeamEvent) (item : Uuid) : Set Uuid :=
  {id | RejectsReview store event item id}

/-- An event that advances nothing closes no visit. -/
theorem closings_of_not_advances {store : TeamStore p} {event : TeamEvent} (item : Uuid)
    (h : ∀ draws advance, ¬ TickAdvances store.state event draws advance) :
    closings store event item = ∅ := by
  refine Set.eq_empty_iff_forall_notMem.mpr ?_
  rintro id (⟨context, boundary, work, decision, ⟨advance, _, _, _, hadvances, _⟩⟩ |
    ⟨draws, advance, visit, hadvances⟩)
  · exact h _ _ hadvances
  · exact h _ _ hadvances

/-- An event that advances nothing rejects no review. -/
theorem sentBack_of_not_advances {store : TeamStore p} {event : TeamEvent} (item : Uuid)
    (h : ∀ draws advance, ¬ TickAdvances store.state event draws advance) :
    sentBack store event item = ∅ := by
  refine Set.eq_empty_iff_forall_notMem.mpr ?_
  rintro id ⟨context, review, work, decision, ⟨advance, _, _, _, hadvances, _⟩⟩
  exact h _ _ hadvances

/-! ### The evaluation of one rule -/

theorem TickAdvances.unique {state : LiveTeamState p} {event : TeamEvent}
    {draws draws' : DrawSource} {advance advance' : RiskAdvance p}
    (h : TickAdvances state event draws advance)
    (h' : TickAdvances state event draws' advance') : draws = draws' ∧ advance = advance' := by
  obtain ⟨request, rfl, -, hadvance⟩ := h
  obtain ⟨request', hevent, -, hadvance'⟩ := h'
  obtain ⟨rfl, rfl⟩ := TeamEvent.tick.inj hevent
  exact ⟨rfl, Except.ok.inj (hadvance.symm.trans hadvance')⟩

/-- An evaluated rule stands between the rules before it and those after it. -/
structure EvaluatedBetween (state : LiveTeamState p) (context : RiskContext p)
    (advance : RiskAdvance p) (before after : List RiskRule) (records : RiskRecords p)
    (next : RiskProgress p) : Prop where
  rules : state.aggregate.blueprint.risks.rules = before ++ context.rule :: after
  asOf : context.asOf = advance.result.endsAt
  first : applyRules context.asOf context.draws { working := state, records := {} } before =
    .ok { working := context.state, records }
  applied : applyRule context.asOf context.draws { working := context.state, records }
    context.rule = .ok next
  rest : applyRules context.asOf context.draws next after =
    .ok { working := advance.state, records := advance.risks }

theorem Evaluates.between {state : LiveTeamState p} {event : TeamEvent} {context : RiskContext p}
    {draws : DrawSource} {advance : RiskAdvance p} {outcome : SegmentsOutcome}
    {finish : StatusVisitState → FinishedVisit} (h : Evaluates state event context)
    (hadvances : TickAdvances state event draws advance)
    (hrun : TickRun state draws advance outcome finish) :
    ∃ before after records next,
      EvaluatedBetween state context advance before after records next := by
  obtain ⟨advance', before, after, records, hadvances', hasOf, hrules, hbefore⟩ := h
  obtain ⟨rfl, rfl⟩ := hadvances.unique hadvances'
  have hall := evaluateDueRisks_working hrun.risks hrun.working
  rw [← hasOf, hrules, applyRules, foldlM_append_eq_ok] at hall
  obtain ⟨reached, hreached, hall⟩ := hall
  obtain rfl := Except.ok.inj (hbefore.symm.trans hreached)
  rw [List.foldlM_cons, bind_eq_ok] at hall
  obtain ⟨next, hnext, hrest⟩ := hall
  exact ⟨before, after, records, next, hrules, hasOf, hbefore, hnext, hrest⟩

section between

variable {store : TeamStore p} {context : RiskContext p} {advance : RiskAdvance p}
  {before after : List RiskRule} {records : RiskRecords p} {next : RiskProgress p}
  (hreach : (teamRuns p).Reachable store)
  (h : EvaluatedBetween store.state context advance before after records next)

include hreach h

/-- The rules before keep the visits. -/
theorem EvaluatedBetween.stays_before :
    StaysVisits store.scrum.toScrumCollections context.state.scrum.toScrumCollections := by
  have hkeys : ((before ++ context.rule :: after).map (·.key)).Nodup :=
    h.rules ▸ store.aggregate.blueprint.ruleKeys_nodup
  rw [List.map_append] at hkeys
  have hnone : applyRules context.asOf context.draws
      { working := store.state, records := {} } [] =
      .ok { working := store.state, records := {} } := rfl
  exact applyRules_stay hnone h.first (ordinalsCounted_of_reachable hreach)
    (List.nodup_append.mp hkeys).1

/-- The rule and those after it keep the visits. -/
theorem EvaluatedBetween.stays_rest :
    StaysVisits context.state.scrum.toScrumCollections advance.state.scrum.toScrumCollections := by
  have hrest : applyRules context.asOf context.draws { working := context.state, records }
      (context.rule :: after) = .ok { working := advance.state, records := advance.risks } := by
    rw [applyRules, List.foldlM_cons, h.applied, ok_bind]
    exact h.rest
  exact applyRules_stay h.first hrest (ordinalsCounted_of_reachable hreach)
    (h.rules ▸ store.aggregate.blueprint.ruleKeys_nodup)

/-- The rules after it keep the visits. -/
theorem EvaluatedBetween.stays_after :
    StaysVisits next.working.scrum.toScrumCollections advance.state.scrum.toScrumCollections := by
  have hfirst : applyRules context.asOf context.draws { working := store.state, records := {} }
      (before ++ [context.rule]) = .ok next :=
    foldlM_append_eq_ok.mpr ⟨_, h.first, by simp [h.applied]⟩
  refine applyRules_stay hfirst h.rest (ordinalsCounted_of_reachable hreach) ?_
  have hkeys := store.aggregate.blueprint.ruleKeys_nodup
  rw [show store.aggregate.blueprint.risks.rules = _ from h.rules] at hkeys
  simpa using hkeys

end between

/-- A rule with a handler is applied by it. -/
theorem applyRule_of_handler {asOf : ℤ} {draws : DrawSource} {progress progress' : RiskProgress p}
    {rule : RiskRule} {handler : RiskContext p → Result (RiskRecords p)}
    (hhandler : handlerFor rule.key = some handler)
    (h : applyRule asOf draws progress rule = .ok progress') :
    ∃ outcome, handler { state := progress.working, asOf, draws, rule } = .ok outcome ∧
      progress.records.merge outcome = .ok progress'.records ∧
      progress.working.withWriteSet outcome.state = .ok progress'.working := by
  simp only [applyRule, hhandler, bind_eq_ok, pure_eq_ok] at h
  obtain ⟨outcome, hout, records, hrecords, working, hworking, rfl⟩ := h
  exact ⟨outcome, hout, hrecords, hworking⟩

section applied

variable {state : LiveTeamState p} {context : RiskContext p} {advance : RiskAdvance p}
  {before after : List RiskRule} {records : RiskRecords p} {next : RiskProgress p}
  (h : EvaluatedBetween state context advance before after records next)

include h

/-- A cancellation that happens closes the open visit of its item. -/
theorem EvaluatedBetween.cancels {boundary : ℤ} {work : WorkItemState}
    {decision : CancellationDecision} (hkey : context.rule.key = "CANCELLATION")
    (hverdict : CancellationVerdict context boundary work decision)
    (houtcome : decision.evidence.outcome = true) :
    cancelledVisit decision.visit boundary ∈ next.working.scrum.statusVisits := by
  have hhandler : handlerFor (p := p) context.rule.key = some cancellation := by
    rw [hkey]
    rfl
  obtain ⟨out, hout, -, hworking⟩ := applyRule_of_handler hhandler h.applied
  have hcollect : collectRecords (cancellationRecords { context with asOf := boundary })
      (activeWork context.state) = .ok out := by
    have hout : cancellation context = .ok out := hout
    rw [cancellation, hverdict.boundary_eq, ok_bind] at hout
    simp only at hout
    rwa [if_neg (by rw [hverdict.trigger]; decide)] at hout
  have hactive : work ∈ activeWork context.state :=
    List.mem_filter.mpr ⟨hverdict.mem, by simp [hverdict.active]⟩
  obtain ⟨r, hr⟩ := collectRecords_exists_ok hcollect hactive
  obtain ⟨decision', hverdict', -, -, hcases⟩ :=
    cancellationRecords_eq_ok hverdict.trigger hverdict.boundary_eq hactive hr
  obtain rfl : decision' = decision :=
    Except.ok.inj (hverdict'.decided.symm.trans hverdict.decided)
  rcases hcases with ⟨hfalse, -⟩ | ⟨hcancel, -⟩
  · rw [houtcome] at hfalse
    cases hfalse
  · have hstep := cancellationStep_of_collectRecords hverdict.trigger hverdict.boundary_eq hcollect
      hworking
    exact (hstep.statusVisits _).mpr (.inl ⟨work, decision', hcancel, rfl⟩)

/-- The decision about a due review is recorded. -/
theorem EvaluatedBetween.records_review {review : StatusVisitState} {work : WorkItemState}
    {decision : ReviewDecision} (hkey : context.rule.key = "REVIEW_REJECTION")
    (htrigger : context.rule.trigger = "STATUS_EXITED")
    (hverdict : ReviewVerdict context review work decision) :
    decisionTruth context.state decision.evidence ∈ advance.risks.groundTruth := by
  have hhandler : handlerFor (p := p) context.rule.key = some reviewRejection := by
    rw [hkey]
    rfl
  obtain ⟨out, hout, hmerge, -⟩ := applyRule_of_handler hhandler h.applied
  have hcollect : collectRecords (dueReviewRecords context) (context.state.scrum.statusVisits.filter
      (reviewDue context.state context.asOf)) = .ok out := by
    have hout : reviewRejection context = .ok out := hout
    rwa [reviewRejection, if_neg (by rw [htrigger]; decide)] at hout
  obtain ⟨rs, hall, hmerged⟩ := collectRecords_eq_ok hcollect
  obtain ⟨r, hr, hrecord⟩ :=
    forall₂_exists_right hall (List.mem_filter.mpr ⟨hverdict.mem, hverdict.due⟩)
  have hmem : decisionTruth context.state decision.evidence ∈ next.records.groundTruth := by
    rw [(RiskRecords.merge_eq_ok hmerge).2.2.1, hmerged.groundTruth]
    refine List.mem_append_right _ (List.mem_flatMap.mpr ⟨r, hr, ?_⟩)
    rw [dueReviewRecords_groundTruth hverdict hrecord]
    exact List.mem_singleton_self _
  -- the rules after it only add records
  refine foldlM_induction (motive := fun progress : RiskProgress p =>
    decisionTruth context.state decision.evidence ∈ progress.records.groundTruth) h.rest hmem ?_
  intro progress rule progress' _ hold hstep
  rcases applyRule_eq_ok hstep with rfl | ⟨handler, outcome, -, -, hmerge', -⟩
  · exact hold
  · rw [(RiskRecords.merge_eq_ok hmerge').2.2.1]
    exact List.mem_append_left _ hold

end applied

/-! ### The visits that a tick closes -/

/-- The identities of the closed visits of an item. -/
def closedIds (visits : List StatusVisitState) (item : Uuid) : Set Uuid :=
  {id | ∃ visit ∈ visits, isClosedOf item visit = true ∧ visit.id = id}

/-- Elements with different keys are as many as their keys. -/
theorem ncard_keys {α κ : Type} [DecidableEq κ] {items : List α} {key : α → κ} {holds : α → Bool}
    (hnodup : ((items.filter holds).map key).Nodup) :
    {k | ∃ a ∈ items, holds a = true ∧ key a = k}.ncard = items.countP holds := by
  have hset : {k | ∃ a ∈ items, holds a = true ∧ key a = k} =
      (((items.filter holds).map key).toFinset : Set κ) := by
    ext k
    simp only [Set.mem_ofPred_eq, List.coe_toFinset, List.mem_map, List.mem_filter, and_assoc]
  rw [hset, Set.ncard_coe_finset, List.toFinset_card_of_nodup hnodup, List.length_map,
    List.countP_eq_length_filter]

theorem isClosedOf_eq_true {item : Uuid} {visit : StatusVisitState} :
    isClosedOf item visit = true ↔ visit.workItemId = item ∧ visit.lifecycle = .CLOSED := by
  rw [isClosedOf, Bool.and_eq_true, decide_eq_true_eq, decide_eq_true_eq]

theorem closedVisitCount_eq_ncard (state : LiveTeamState p) (item : Uuid) :
    closedVisitCount state item = (closedIds state.scrum.statusVisits item).ncard :=
  (ncard_keys ((List.filter_sublist.map _).nodup
    state.scrum.complete.keysUnique.statusVisits)).symm

theorem closedIds_finite (visits : List StatusVisitState) (item : Uuid) :
    (closedIds visits item).Finite := by
  refine (List.finite_toSet (visits.map (·.id))).subset ?_
  rintro id ⟨visit, hvisit, -, rfl⟩
  exact List.mem_map_of_mem hvisit

/-- Closed visits that stay are closed visits later. -/
theorem StaysVisits.closedIds_subset {c c' : ScrumCollections} (h : StaysVisits c c')
    (item : Uuid) : closedIds c.statusVisits item ⊆ closedIds c'.statusVisits item := by
  rintro id ⟨visit, hvisit, hclosed, rfl⟩
  obtain ⟨visit', hvisit', hstays⟩ := h visit hvisit
  obtain rfl : visit' = visit := hstays.closed (isClosedOf_eq_true.mp hclosed).2
  exact ⟨visit', hvisit', hclosed, rfl⟩

/-- A row of a closed visit is open in no consistent state in which the visit stays. -/
theorem StaysVisits.not_open {c c' : ScrumCollections} (h : StaysVisits c c')
    (hc' : c'.Consistent p) {item : Uuid} {visit : StatusVisitState}
    (hvisit : visit ∈ c'.statusVisits) (hopen : visit.lifecycle = .OPEN) :
    visit.id ∉ closedIds c.statusVisits item := by
  intro hid
  obtain ⟨visit', hvisit', hclosed, hsame⟩ := h.closedIds_subset item hid
  obtain rfl : visit' = visit := Collection.statusVisits.eq_of_key_eq hc' hvisit' hvisit hsame
  rw [(isClosedOf_eq_true.mp hclosed).2] at hopen
  cases hopen

/-- A visit that is closed after some rules was closed before them or is cancelled by one. -/
theorem closed_of_rules {store : TeamStore p} {event : TeamEvent} {draws : DrawSource}
    {advance : RiskAdvance p} {progress : RiskProgress p}
    (hadvances : TickAdvances store.state event draws advance)
    (h : applyRules advance.result.endsAt draws { working := store.state, records := {} }
      store.state.aggregate.blueprint.risks.rules = .ok progress) :
    ∀ visit ∈ progress.working.scrum.statusVisits, visit.lifecycle = .CLOSED →
      visit.id ∈ closedIds store.scrum.statusVisits visit.workItemId ∪
        closings store event visit.workItemId := by
  refine hadvances.rules_induction (motive := fun progress : RiskProgress p =>
    ∀ visit ∈ progress.working.scrum.statusVisits, visit.lifecycle = .CLOSED →
      visit.id ∈ closedIds store.scrum.statusVisits visit.workItemId ∪
        closings store event visit.workItemId) h ?_ ?_
  · intro visit hvisit hclosed
    exact .inl ⟨visit, hvisit, isClosedOf_eq_true.mpr ⟨rfl, hclosed⟩, rfl⟩
  intro rule reached reached' _ hevaluates hreached hstep visit hvisit hclosed
  obtain ⟨-, -, hrisk⟩ := applyRule_riskStep hstep
  cases hrisk with
  | silent h => exact hreached visit (h ▸ hvisit) hclosed
  | reviews _ _ h =>
    rcases (h.statusVisits visit).mp hvisit with ⟨work, decision, sample, hreturns⟩ | ⟨hstays, -⟩
    · obtain ⟨review, step, counter, hreturn⟩ := hreturns
      rw [hreturn.enters.lifecycle_eq] at hclosed
      cases hclosed
    · exact hreached visit hstays hclosed
  | cancellations hkey boundary _ h =>
    rcases (h.statusVisits visit).mp hvisit with ⟨work, decision, hcancels, rfl⟩ | ⟨hstays, -⟩
    · exact .inr (.cancelled _ boundary work decision hevaluates hkey
        hcancels.toCancellationVerdict hcancels.outcome hcancels.visit_mem.2.1.symm)
    · exact hreached visit hstays hclosed
  | pauses h =>
    rcases h.mem_of_mem visit hvisit with hmem | ⟨old, -, hopen, delta, rfl, -⟩
    · exact hreached visit hmem hclosed
    · rw [show (pausedBy old delta).lifecycle = old.lifecycle from rfl, hopen] at hclosed
      cases hclosed
  | absences h => exact hreached visit (h.statusVisits ▸ hvisit) hclosed

/-- The end of a tick closes a visit exactly when it is complete. -/
theorem finishVisit_of_complete {state : LiveTeamState p} {calendar : BusinessCalendar}
    {instant : ℤ} {draws : DrawSource} {visit : StatusVisitState} {finished : FinishedVisit}
    {sample : StatusVisitSample}
    (h : finishVisit state calendar (openVisits state) instant draws visit = .ok finished)
    (hsample : getItem (·.visitId) state.scrum.statusVisitSamples visit.id = .ok sample)
    (hcomplete : isComplete visit sample instant calendar = .ok true) :
    closedVisit visit instant ∈ finished.visits := by
  simp only [finishVisit, hsample, hcomplete, ok_bind, if_true, bind_eq_ok, validated_eq_ok,
    pure_eq_ok] at h
  obtain ⟨closed, ⟨-, rfl⟩, work, -, moved, -, rfl⟩ := h
  exact List.mem_cons_self

theorem finishVisit_complete {state : LiveTeamState p} {calendar : BusinessCalendar} {instant : ℤ}
    {draws : DrawSource} {visit : StatusVisitState} {finished : FinishedVisit}
    (h : finishVisit state calendar (openVisits state) instant draws visit = .ok finished)
    (hwork : finished.workItems ≠ []) :
    ∃ sample, getItem (·.visitId) state.scrum.statusVisitSamples visit.id = .ok sample ∧
      isComplete visit sample instant calendar = .ok true := by
  simp only [finishVisit, bind_eq_ok] at h
  obtain ⟨sample, hsample, complete, hcomplete, h⟩ := h
  cases complete with
  | true => exact ⟨sample, hsample, hcomplete⟩
  | false =>
    simp only [Bool.false_eq_true, if_false, bind_eq_ok, pure_eq_ok] at h
    obtain ⟨before, -, rfl⟩ := h
    exact absurd rfl hwork

section tick

variable {store store' : TeamStore p} {event : TeamEvent} {draws : DrawSource}
  {advance : RiskAdvance p} {outcome : SegmentsOutcome}
  {finish : StatusVisitState → FinishedVisit}
  (hrun : TickRun store.state draws advance outcome finish)

include hrun

/-- A closed visit that the progress writes is complete. -/
theorem TickRun.completes_of_closed {visit : StatusVisitState}
    (hvisit : visit ∈ advance.result.visits) (hclosed : visit.lifecycle = .CLOSED) :
    ∃ x, CompletesVisit store.state advance x ∧ visit = closedVisit x advance.result.endsAt := by
  obtain ⟨x, hx, hmem⟩ := hrun.mem_visits.mp hvisit
  obtain ⟨before, hbefore, same⟩ := hrun.exists_before hx
  obtain ⟨calendar, segments, hcalls⟩ := hrun.calls
  have hcompletes : (finish x).workItems ≠ [] → CompletesVisit store.state advance x := by
    intro hwork
    obtain ⟨sample, hsample, hcomplete⟩ := finishVisit_complete (hcalls.finish_eq x hx) hwork
    exact ⟨calendar, segments, outcome, sample, hcalls.calendar_eq, hcalls.segments_eq,
      hcalls.outcome_eq, hx, hsample, hcomplete⟩
  cases hrun.finishes x hx with
  | kept _ heq =>
    rw [heq] at hmem
    cases hmem
  | advanced _ _ _ _ heq =>
    rw [heq, List.mem_singleton] at hmem
    rw [hmem, same.lifecycle, (mem_openVisits.mp hbefore).2] at hclosed
    cases hclosed
  | done _ _ _ _ _ _ _ heq =>
    rw [heq, List.mem_singleton] at hmem
    exact ⟨x, hcompletes (by simp [heq]), hmem⟩
  | moved _ _ _ _ _ _ _ _ _ _ henters _ heq =>
    rw [heq] at hmem
    simp only [List.mem_cons, List.not_mem_nil, or_false] at hmem
    rcases hmem with rfl | rfl
    · exact ⟨x, hcompletes (by simp [heq]), rfl⟩
    · rw [henters.lifecycle_eq] at hclosed
      cases hclosed

/-- A complete visit was open before the progress, which closes it. -/
theorem TickRun.closes_complete {visit : StatusVisitState}
    (hcompletes : CompletesVisit store.state advance visit) :
    closedVisit visit advance.result.endsAt ∈ advance.result.visits ∧
      ∃ before ∈ openVisits advance.state, SameVisit before visit := by
  obtain ⟨calendar, segments, outcome', sample, hcalendar, hsegments, houtcome, hmem, hsample,
    hcomplete⟩ := hcompletes
  obtain ⟨calendar', segments', hcalls⟩ := hrun.calls
  have hcal := hcalls.calendar_eq
  rw [hcalendar] at hcal
  obtain rfl := Except.ok.inj hcal
  have hseg := hcalls.segments_eq
  rw [hsegments] at hseg
  obtain rfl := Except.ok.inj hseg
  have hout := hcalls.outcome_eq
  rw [houtcome] at hout
  obtain rfl := Except.ok.inj hout
  exact ⟨hrun.mem_visits.mpr ⟨visit, hmem,
    finishVisit_of_complete (hcalls.finish_eq visit hmem) hsample hcomplete⟩,
    hrun.exists_before hmem⟩

end tick

section committed

variable {store store' : TeamStore p} {command : AuthoritativeTickSliceCommit p}
  {event : TeamEvent} {draws : DrawSource} {advance : RiskAdvance p}
  (hreach : (teamRuns p).Reachable store) (hadvances : TickAdvances store.state event draws advance)
  (hcommitted : Committed store command store')
  (hassembled : Assembled command.liveSlice advance command)

include hreach hadvances hcommitted hassembled

omit hcommitted hassembled in
/-- A visit that the event closes was not closed before it. -/
theorem closings_new (item : Uuid) :
    ∀ id ∈ closings store event item, id ∉ closedIds store.scrum.statusVisits item := by
  obtain ⟨outcome, finish, hrun⟩ := hadvances.tickRun
  rintro id (⟨context, boundary, work, decision, hevaluates, -, hverdict, -, -⟩ |
    ⟨draws', advance', visit, hadvances', hcompletes, -⟩)
  · obtain ⟨before, after, records, next, hbetween⟩ := hevaluates.between hadvances hrun
    obtain ⟨hmem, -, hopen⟩ := hverdict.visit_mem
    exact (hbetween.stays_before hreach).not_open context.state.scrum.complete.toConsistent hmem
      hopen
  · obtain ⟨rfl, rfl⟩ := hadvances.unique hadvances'
    obtain ⟨-, before, hbefore, same⟩ := hrun.closes_complete hcompletes
    obtain ⟨hmem, hopen⟩ := mem_openVisits.mp hbefore
    rw [same.id]
    exact (hrun.risks_stay hreach).not_open advance.state.scrum.complete.toConsistent hmem hopen

/-- After a tick that advances, the closed visits of an item are those before it and those that it
closes. -/
theorem closedIds_tick (item : Uuid) : closedIds store'.scrum.statusVisits item =
    closedIds store.scrum.statusVisits item ∪ closings store event item := by
  obtain ⟨outcome, finish, hrun⟩ := hadvances.tickRun
  have hafter := hcommitted.afterTick hrun.working hassembled
  have hrisks := hrun.risks_stay hreach
  have hprogress := hrun.progress_stays hreach hcommitted hassembled
  refine Set.Subset.antisymm ?_ (Set.union_subset ?_ ?_)
  · rintro id ⟨visit, hvisit, hclosed, rfl⟩
    obtain ⟨rfl, hlifecycle⟩ := isClosedOf_eq_true.mp hclosed
    rcases (hafter.visits visit).mp hvisit with hwritten | ⟨hworking, -⟩
    · obtain ⟨x, hcompletes, rfl⟩ := hrun.completes_of_closed hwritten hlifecycle
      exact .inr (.completed draws advance x hadvances hcompletes rfl)
    · exact closed_of_rules hadvances (evaluateDueRisks_working hrun.risks hrun.working) visit
        hworking hlifecycle
  · exact (hrisks.closedIds_subset item).trans (hprogress.closedIds_subset item)
  · rintro id (⟨context, boundary, work, decision, hevaluates, hkey, hverdict, houtcome, rfl⟩ |
      ⟨draws', advance', visit, hadvances', hcompletes, rfl⟩)
    · obtain ⟨before, after, records, next, hbetween⟩ := hevaluates.between hadvances hrun
      refine hprogress.closedIds_subset _ ((hbetween.stays_after hreach).closedIds_subset _ ?_)
      exact ⟨_, hbetween.cancels hkey hverdict houtcome,
        isClosedOf_eq_true.mpr ⟨hverdict.visit_mem.2.1, rfl⟩, rfl⟩
    · obtain ⟨rfl, rfl⟩ := hadvances.unique hadvances'
      exact ⟨_, (hafter.visits _).mpr (.inl (hrun.closes_complete hcompletes).1),
        isClosedOf_eq_true.mpr ⟨rfl, rfl⟩, rfl⟩

end committed

/-! ### The rejections that a tick records -/

theorem rejectedReview_decisionTruth {state : LiveTeamState p} {evidence : DecisionEvidence}
    {review : Uuid} : rejectedReview (decisionTruth state evidence) = some review ↔
      evidence.rule.key = "REVIEW_REJECTION" ∧ evidence.outcome = true ∧
        evidence.entityId = review := by
  simp only [rejectedReview, decisionTruth, riskKey, evidencePayload, Option.ite_none_right_eq_some,
    Option.some.injEq, and_assoc]

/-- A rejection is the record of a review decision. -/
theorem decisionOf_of_rejectedReview {draft : GroundTruthRecordDraft} {review : Uuid}
    (h : rejectedReview draft = some review) :
    decisionOf draft = some ("REVIEW_REJECTION", review) := by
  have hrejects : ∃ team run version rule occurredAt record,
      draft.semanticKey = .risk team run version rule review occurredAt ∧
        draft.payload = .riskEvaluation record ∧ rule = "REVIEW_REJECTION" := by
    unfold rejectedReview at h
    split at h
    · rename_i hkey hpayload
      split_ifs at h with hrejected
      obtain rfl := Option.some.inj h
      exact ⟨_, _, _, _, _, _, hkey, hpayload, hrejected.1⟩
    · cases h
  obtain ⟨_, _, _, _, _, _, hkey, hpayload, rfl⟩ := hrejects
  simp only [decisionOf, hkey, hpayload, true_or, if_true]

/-- Without a decision there is no rejection. -/
theorem rejectedReview_ne {draft : GroundTruthRecordDraft} (h : decisionOf draft = none)
    (review : Uuid) : rejectedReview draft ≠ some review := by
  intro hreview
  have hdecision := decisionOf_of_rejectedReview hreview
  rw [h] at hdecision
  cases hdecision

/-- The ledger of a run: its keys are apart, and its rejections are of closed visits and older than
the runtime. -/
structure KnownRejections (store : TeamStore p) : Prop where
  keys : (store.groundTruth.map (·.semanticKey)).Nodup
  closed : ∀ draft ∈ store.groundTruth, ∀ review, rejectedReview draft = some review →
    ∃ visit ∈ store.scrum.statusVisits, visit.id = review ∧ visit.lifecycle = .CLOSED
  dated : ∀ draft ∈ store.groundTruth, ∀ review, rejectedReview draft = some review →
    ∃ team run version rule entity occurredAt,
      draft.semanticKey = .risk team run version rule entity occurredAt ∧
      version < store.aggregate.runtime.version

/-- The rejections of the drafts are new: of closed visits, with the version of the runtime before.
-/
structure NewRejections (store store' : TeamStore p) (drafts : List GroundTruthRecordDraft) : Prop
    where
  closed : ∀ draft ∈ drafts, ∀ review, rejectedReview draft = some review →
    ∃ visit ∈ store'.scrum.statusVisits, visit.id = review ∧ visit.lifecycle = .CLOSED
  key : ∀ draft ∈ drafts, ∀ review, rejectedReview draft = some review →
    ∃ team run rule occurredAt, draft.semanticKey =
      .risk team run store.aggregate.runtime.version rule review occurredAt
  same : ∀ a ∈ drafts, ∀ b ∈ drafts, ∀ review, rejectedReview a = some review →
    rejectedReview b = some review → a.semanticKey = b.semanticKey

theorem newRejections_of_none {store store' : TeamStore p} {drafts : List GroundTruthRecordDraft}
    (h : ∀ draft ∈ drafts, decisionOf draft = none) : NewRejections store store' drafts := by
  have hnone : ∀ draft ∈ drafts, ∀ review, rejectedReview draft ≠ some review :=
    fun draft hdraft review => rejectedReview_ne (h draft hdraft) review
  exact ⟨fun draft hdraft review hreview => absurd hreview (hnone draft hdraft review),
    fun draft hdraft review hreview => absurd hreview (hnone draft hdraft review),
    fun draft hdraft _ _ review hreview => absurd hreview (hnone draft hdraft review)⟩

theorem CommandOf.newRejections {store store' : TeamStore p} {event : TeamEvent}
    {command : AuthoritativeTickSliceCommit p} (hof : CommandOf store.state event command)
    (hreach : (teamRuns p).Reachable store) (hcommitted : Committed store command store') :
    NewRejections store store' command.liveSlice.groundTruth := by
  cases hof with
  | tick request draws advance _ _ hadvance hslice htime hassembled =>
    obtain ⟨outcome, finish, hrun⟩ := tickAdvance_eq_ok hadvance
    have htaken : ∀ draft ∈ command.liveSlice.groundTruth, ∀ review,
        rejectedReview draft = some review → TakenDecision store.state advance.result.endsAt draws
          draft ("REVIEW_REJECTION", review) := by
      intro draft hdraft review hreview
      have hdecision := decisionOf_of_rejectedReview hreview
      exact evaluateDueRisks_decision hrun.risks (tickSlice_decision hslice hdraft hdecision)
        hdecision
    refine ⟨fun draft hdraft review hreview => ?_, fun draft hdraft review hreview => ?_,
      fun a ha b hb review hA hB => ?_⟩
    · have hdecision := decisionOf_of_rejectedReview hreview
      obtain ⟨visit, hvisit, hid, hclosed, -⟩ :=
        ((htaken draft hdraft review hreview).row hreach hcommitted hrun hassembled
          (hcommitted.runtime_eq.2.2.2.2.trans htime) hdecision).1 review hdecision
      exact ⟨visit, hvisit, hid, hclosed⟩
    · exact ⟨_, _, _, _, (htaken draft hdraft review hreview).key⟩
    · rw [(htaken a ha review hA).key, (htaken b hb review hB).key]
  | boundary instant transition _ hstep _ _ _ _ _ hgroundTruth =>
    exact newRejections_of_none fun draft hdraft => hstep.no_decision (hgroundTruth ▸ hdraft)
  | downtime _ _ _ hgroundTruth =>
    exact newRejections_of_none fun draft hdraft =>
      decisionOf_of_downtime (hgroundTruth draft hdraft)

theorem knownRejections_of_reachable {store : TeamStore p} (h : (teamRuns p).Reachable store) :
    KnownRejections store := by
  refine run_induction h ?_ ?_ ?_
  · intro start draws context picked initial store _ hboot
    have hempty : store.groundTruth = [] := hboot.groundTruth
    constructor <;> simp [hempty]
  · intro store store' _ hknown hprovision
    rw [hprovision.same]
    exact ⟨hknown.keys, hknown.closed, hknown.dated⟩
  · intro store event command store' hreach hknown _ _ hof hcommitted
    have hnew := hof.newRejections hreach hcommitted
    have hstay := hcommitted.visits_stay hreach hof
    have hversion := hcommitted.runtime_eq.2.2.1
    obtain ⟨added, hadded, hsublist, -⟩ := appendDrafts_eq_ok hcommitted.groundTruth
    refine ⟨appendDrafts_nodup hcommitted.groundTruth hknown.keys, ?_, ?_⟩
    · intro draft hdraft review hreview
      rw [hadded, List.mem_append] at hdraft
      rcases hdraft with hold | hdraft
      · obtain ⟨visit, hvisit, hid, hclosed⟩ := hknown.closed draft hold review hreview
        obtain ⟨visit', hvisit', hstays⟩ := hstay visit hvisit
        obtain rfl : visit' = visit := hstays.closed hclosed
        exact ⟨visit', hvisit', hid, hclosed⟩
      · exact hnew.closed draft (hsublist.subset hdraft) review hreview
    · intro draft hdraft review hreview
      rw [hadded, List.mem_append] at hdraft
      rcases hdraft with hold | hdraft
      · obtain ⟨team, run, version, rule, entity, occurredAt, hkey, hlt⟩ :=
          hknown.dated draft hold review hreview
        exact ⟨team, run, version, rule, entity, occurredAt, hkey, by omega⟩
      · obtain ⟨team, run, rule, occurredAt, hkey⟩ :=
          hnew.key draft (hsublist.subset hdraft) review hreview
        exact ⟨team, run, _, rule, review, occurredAt, hkey, by omega⟩

/-- A record sends back a closed visit of the item. -/
theorem rejects_eq_true {visits : List StatusVisitState} {item : Uuid}
    {draft : GroundTruthRecordDraft} : rejects visits item draft = true ↔
      ∃ review, rejectedReview draft = some review ∧ review ∈ closedIds visits item := by
  unfold rejects closedIds
  cases hreview : rejectedReview draft with
  | none => simp
  | some review =>
    simp only [Option.any_some, List.any_eq_true, Bool.and_eq_true, decide_eq_true_eq,
      Option.some.injEq, exists_eq_left', Set.mem_ofPred_eq]
    exact exists_congr fun visit => and_congr_right fun _ => and_comm

section rejections

variable {store store' : TeamStore p} {command : AuthoritativeTickSliceCommit p}
  {event : TeamEvent} (hreach : (teamRuns p).Reachable store)
  (hcommitted : Committed store command store') (hof : CommandOf store.state event command)

include hreach hcommitted hof

/-- The rejections of an item after a commit: those before it, and those of the new reviews. -/
theorem rejections_commit (item : Uuid) : rejections store' item = rejections store item +
    {review | (∃ draft ∈ command.liveSlice.groundTruth, rejectedReview draft = some review) ∧
      review ∈ closedIds store'.scrum.statusVisits item}.ncard := by
  have hknown := knownRejections_of_reachable hreach
  have hnew := hof.newRejections hreach hcommitted
  have hstay := hcommitted.visits_stay hreach hof
  have hkeys := appendDrafts_nodup hcommitted.groundTruth hknown.keys
  obtain ⟨added, hadded, hsublist, hall⟩ := appendDrafts_eq_ok hcommitted.groundTruth
  rw [hadded, List.map_append] at hkeys
  -- an old rejection is one of the same item, since its review was closed
  have hold : store.groundTruth.countP (rejects store'.scrum.statusVisits item) =
      rejections store item := by
    refine List.countP_congr fun draft hdraft => ?_
    rw [rejects_eq_true, rejects_eq_true]
    refine exists_congr fun review => and_congr_right fun hreview => ⟨fun hclosed => ?_,
      fun hclosed => hstay.closedIds_subset item hclosed⟩
    obtain ⟨visit, hvisit, hid, hlifecycle⟩ := hknown.closed draft hdraft review hreview
    obtain ⟨visit', hvisit', hstays⟩ := hstay visit hvisit
    obtain rfl : visit' = visit := hstays.closed hlifecycle
    obtain ⟨row, hrow, hrowClosed, hrowId⟩ := hclosed
    obtain rfl : row = visit' := Collection.statusVisits.eq_of_key_eq
      store'.scrum.complete.toConsistent hrow hvisit' (hrowId.trans hid.symm)
    exact ⟨row, hvisit, hrowClosed, hid⟩
  -- a new rejection is not in the ledger, since its key has the version of the runtime
  have hfresh : ∀ draft ∈ command.liveSlice.groundTruth, ∀ review,
      rejectedReview draft = some review → draft ∈ added := by
    intro draft hdraft review hreview
    have hmem := hall draft hdraft
    rw [hadded, List.mem_append] at hmem
    refine hmem.resolve_left fun hmem => ?_
    obtain ⟨team, run, version, rule, entity, occurredAt, hkey, hlt⟩ :=
      hknown.dated draft hmem review hreview
    obtain ⟨team', run', rule', occurredAt', hkey'⟩ := hnew.key draft hdraft review hreview
    rw [hkey, SemanticKey.risk.injEq] at hkey'
    omega
  have hnodup : ((added.filter (rejects store'.scrum.statusVisits item)).map
      rejectedReview).Nodup := by
    have hpairwise : added.Pairwise fun a b => a.semanticKey ≠ b.semanticKey :=
      List.pairwise_map.mp (List.nodup_append.mp hkeys).2.1
    refine List.pairwise_map.mpr ((hpairwise.filter _).imp_of_mem fun ha hb hne heq => ?_)
    obtain ⟨ha, hrejects⟩ := List.mem_filter.mp ha
    obtain ⟨review, hreview, -⟩ := rejects_eq_true.mp hrejects
    exact hne (hnew.same _ (hsublist.subset ha) _ (hsublist.subset (List.mem_filter.mp hb).1) review
      hreview (heq ▸ hreview))
  unfold rejections at hold ⊢
  rw [hadded, List.countP_append, hold, ← ncard_keys hnodup]
  congr 1
  rw [← Set.ncard_image_of_injective _ (Option.some_injective Uuid)]
  congr 1
  ext found
  simp only [Set.mem_ofPred_eq, Set.mem_image]
  constructor
  · rintro ⟨draft, hdraft, hrejects, rfl⟩
    obtain ⟨review, hreview, hclosed⟩ := rejects_eq_true.mp hrejects
    exact ⟨review, ⟨⟨draft, hsublist.subset hdraft, hreview⟩, hclosed⟩, hreview.symm⟩
  · rintro ⟨review, ⟨⟨draft, hdraft, hreview⟩, hclosed⟩, rfl⟩
    exact ⟨draft, hfresh draft hdraft review hreview,
      rejects_eq_true.mpr ⟨review, hreview, hclosed⟩, hreview⟩

end rejections

/-- A tick that advances records the rejections of the reviews that it rejects. -/
theorem sentBack_tick {store store' : TeamStore p} {command : AuthoritativeTickSliceCommit p}
    {event : TeamEvent} {draws : DrawSource} {advance : RiskAdvance p} {request : TickRequest}
    (hreach : (teamRuns p).Reachable store)
    (hadvances : TickAdvances store.state event draws advance)
    (hcommitted : Committed store command store')
    (hassembled : Assembled command.liveSlice advance command)
    (hslice : tickSlice request advance = .ok command.liveSlice) (item : Uuid) :
    {review | (∃ draft ∈ command.liveSlice.groundTruth, rejectedReview draft = some review) ∧
      review ∈ closedIds store'.scrum.statusVisits item} = sentBack store event item := by
  obtain ⟨outcome, finish, hrun⟩ := hadvances.tickRun
  have hprogress := hrun.progress_stays hreach hcommitted hassembled
  -- the review of a decision is closed in the working state, and stays so
  have hreview : ∀ {context : RiskContext p} {review : StatusVisitState} {work : WorkItemState}
      {decision : ReviewDecision}, Evaluates store.state event context →
      ReviewVerdict context review work decision → review.workItemId = work.id ∧
        review.lifecycle = .CLOSED ∧ review ∈ store'.scrum.statusVisits := by
    intro context review work decision hevaluates hverdict
    obtain ⟨before, after, records, next, hbetween⟩ := hevaluates.between hadvances hrun
    have hdue := hverdict.due
    simp only [reviewDue, Bool.and_eq_true, decide_eq_true_eq] at hdue
    have hclosed := hdue.1.1.1
    obtain ⟨middle, hmiddle, hstays⟩ := hbetween.stays_rest hreach review hverdict.mem
    obtain rfl : middle = review := hstays.closed hclosed
    obtain ⟨row, hrow, hstays⟩ := hprogress middle hmiddle
    obtain rfl : row = middle := hstays.closed hclosed
    exact ⟨(workOf_eq_ok hverdict.work_eq).2.symm, hclosed, hrow⟩
  ext id
  constructor
  · rintro ⟨⟨draft, hdraft, hrejected⟩, row, hrow, hrowClosed, hrowId⟩
    have hrisk := tickSlice_decision hslice hdraft (decisionOf_of_rejectedReview hrejected)
    obtain ⟨before, rule, after, reached, evidence, hrules, hreached, hdecides, rfl⟩ :=
      evaluateDueRisks_groundTruth hrun.risks hrisk
    obtain ⟨hkey, houtcome, hentity⟩ := rejectedReview_decisionTruth.mp hrejected
    rw [hdecides.rule] at hkey
    obtain ⟨htrigger, review, work, decision, hverdict, rfl⟩ := hdecides.review hkey
    have hevaluates : Evaluates store.state event
        { state := reached.working, asOf := advance.result.endsAt, draws, rule } :=
      .intro advance before after reached.records hadvances rfl hrules hreached
    obtain ⟨hitem, -, hmem⟩ := hreview hevaluates hverdict
    obtain rfl : review.id = id :=
      (reviewDecision_evidence hverdict.decided).2.1.symm.trans hentity
    obtain rfl : row = review := Collection.statusVisits.eq_of_key_eq
      store'.scrum.complete.toConsistent hrow hmem hrowId
    exact .rejected _ row work decision hevaluates hkey htrigger hverdict houtcome
      (hitem.symm.trans (isClosedOf_eq_true.mp hrowClosed).1)
  · rintro ⟨context, review, work, decision, hevaluates, hkey, htrigger, hverdict, houtcome, rfl⟩
    obtain ⟨hitem, hclosed, hmem⟩ := hreview hevaluates hverdict
    obtain ⟨before, after, records, next, hbetween⟩ := hevaluates.between hadvances hrun
    obtain ⟨hrule, hentity, -⟩ := reviewDecision_evidence hverdict.decided
    have hrejected : rejectedReview (decisionTruth context.state decision.evidence) =
        some review.id :=
      rejectedReview_decisionTruth.mpr ⟨by rw [hrule]; exact hkey, houtcome, hentity⟩
    obtain ⟨truths, htruths, -⟩ := tickSlice_groundTruth hslice
    refine ⟨⟨_, ?_, hrejected⟩, review, hmem, isClosedOf_eq_true.mpr ⟨hitem, hclosed⟩, rfl⟩
    rw [htruths]
    exact List.mem_append_right _ (hbetween.records_review hkey htrigger hverdict)

/-! ### Steps -/

/-- A step that commits the advance of a tick. -/
theorem TickAdvances.committed {store store' : TeamStore p} {event : TeamEvent}
    {draws : DrawSource} {advance : RiskAdvance p} (hbased : Based store)
    (hadvances : TickAdvances store.state event draws advance)
    (hstep : (teamRuns p).step store event store') :
    ∃ request command, Committed store command store' ∧ CommandOf store.state event command ∧
      tickSlice request advance = .ok command.liveSlice ∧
      Assembled command.liveSlice advance command := by
  obtain ⟨request, rfl, hquiet, hadvance⟩ := hadvances
  have htick : ProgressTick store request draws advance store' := ⟨hquiet, hadvance, hstep⟩
  obtain ⟨command, hcommitted, hslice, hassembled⟩ := htick.committed hbased
  exact ⟨request, command, hcommitted, .tick request draws advance rfl hquiet hadvance hslice
    (tickSlice_runtimeAfter hslice).2 hassembled, hslice, hassembled⟩

/-- A step that advances no tick closes no visit and records no rejection. -/
theorem counts_of_not_advances {store store' : TeamStore p} {event : TeamEvent}
    (hreach : (teamRuns p).Reachable store) (hstep : (teamRuns p).step store event store')
    (hnone : ∀ draws advance, ¬ TickAdvances store.state event draws advance) (item : Uuid) :
    closedIds store'.scrum.statusVisits item = closedIds store.scrum.statusVisits item ∧
      rejections store' item = rejections store item := by
  have hbased := Based.of_reachable hreach
  rcases stepTeam_eq_ok hbased.loaded hstep with ⟨startedAt, -, hprovision⟩ | rfl |
    ⟨command, -, hof, hcommitted⟩
  · rw [(provision_eq_ok hbased hprovision).same]
    exact ⟨rfl, rfl⟩
  · exact ⟨rfl, rfl⟩
  have hstay := hcommitted.visits_stay hreach hof
  have hcommit := rejections_commit hreach hcommitted hof item
  -- the new visits are open, and the new records are no decisions
  suffices h : (∀ visit ∈ store'.scrum.statusVisits, visit.lifecycle = .CLOSED →
      visit ∈ store.scrum.statusVisits) ∧
      ∀ draft ∈ command.liveSlice.groundTruth, decisionOf draft = none by
    refine ⟨Set.Subset.antisymm ?_ (hstay.closedIds_subset item), ?_⟩
    · rintro id ⟨visit, hvisit, hclosed, rfl⟩
      exact ⟨visit, h.1 visit hvisit (isClosedOf_eq_true.mp hclosed).2, hclosed, rfl⟩
    · rw [hcommit, Nat.add_eq_left]
      refine (Set.ncard_eq_zero ((closedIds_finite _ _).subset fun _ hreview => hreview.2)).mpr ?_
      refine Set.eq_empty_iff_forall_notMem.mpr ?_
      rintro review ⟨⟨draft, hdraft, hreview⟩, -⟩
      exact rejectedReview_ne (h.2 draft hdraft) review hreview
  cases hof with
  | tick request draws advance hevent hquiet hadvance =>
    exact absurd (.intro request hevent hquiet hadvance) (hnone draws advance)
  | boundary instant transition _ hboundary _ hstate _ _ _ hgroundTruth =>
    refine ⟨fun visit hvisit hclosed => ?_, fun draft hdraft =>
      hboundary.no_decision (hgroundTruth ▸ hdraft)⟩
    rcases boundary_visits hreach hcommitted hboundary hstate hvisit with hold | ⟨-, -, hopen, -⟩
    · exact hold
    · rw [hopen] at hclosed
      cases hclosed
  | downtime hempty _ _ hgroundTruth =>
    exact ⟨fun visit hvisit _ => (hcommitted.mem_of_empty Collection.statusVisits
      (fun _ _ _ => rfl) hempty).mp hvisit, fun draft hdraft =>
        decisionOf_of_downtime (hgroundTruth draft hdraft)⟩

/-- The closed visits of an item after a step. -/
theorem closedVisitCount_step {store store' : TeamStore p} {event : TeamEvent}
    (hreach : (teamRuns p).Reachable store) (hstep : (teamRuns p).step store event store')
    (item : Uuid) : closedVisitCount store'.state item =
      closedVisitCount store.state item + (closings store event item).ncard := by
  rw [closedVisitCount_eq_ncard, closedVisitCount_eq_ncard]
  by_cases hadvances : ∃ draws advance, TickAdvances store.state event draws advance
  · obtain ⟨draws, advance, hadvances⟩ := hadvances
    obtain ⟨request, command, hcommitted, -, -, hassembled⟩ :=
      hadvances.committed (Based.of_reachable hreach) hstep
    have hclosed := closedIds_tick hreach hadvances hcommitted hassembled item
    have hfinite : (closings store event item).Finite :=
      (closedIds_finite store'.scrum.statusVisits item).subset
        (hclosed ▸ Set.subset_union_right)
    rw [show store'.state.scrum = store'.scrum from rfl, hclosed]
    have hnew : ∀ id ∈ closings store event item, id ∉ closedIds store.scrum.statusVisits item :=
      closings_new hreach hadvances item
    exact Set.ncard_union_eq (Set.disjoint_right.mpr hnew) (closedIds_finite _ _) hfinite
  · have hnone : ∀ draws advance, ¬ TickAdvances store.state event draws advance :=
      fun draws advance h => hadvances ⟨draws, advance, h⟩
    rw [closings_of_not_advances item hnone, Set.ncard_empty, add_zero]
    exact congrArg Set.ncard (counts_of_not_advances hreach hstep hnone item).1

/-- The recorded rejections of an item after a step. -/
theorem rejections_step {store store' : TeamStore p} {event : TeamEvent}
    (hreach : (teamRuns p).Reachable store) (hstep : (teamRuns p).step store event store')
    (item : Uuid) : rejections store' item =
      rejections store item + (sentBack store event item).ncard := by
  by_cases hadvances : ∃ draws advance, TickAdvances store.state event draws advance
  · obtain ⟨draws, advance, hadvances⟩ := hadvances
    obtain ⟨request, command, hcommitted, hof, hslice, hassembled⟩ :=
      hadvances.committed (Based.of_reachable hreach) hstep
    rw [rejections_commit hreach hcommitted hof item,
      sentBack_tick hreach hadvances hcommitted hassembled hslice item]
  · have hnone : ∀ draws advance, ¬ TickAdvances store.state event draws advance :=
      fun draws advance h => hadvances ⟨draws, advance, h⟩
    rw [sentBack_of_not_advances item hnone, Set.ncard_empty, add_zero]
    exact (counts_of_not_advances hreach hstep hnone item).2

end JiraSimulator
