import JiraSimulator.Correctness.ProgressLedger

/-!
# Claims of the new visits

A visit that a tick adds has claimed its ordinal, in the risks by a return or in the progress by a
transition, and a command claims the ordinals of an item once.  So the progress never takes the
ordinal of a visit that the risks have just returned.

* `applyRules_claimed`: a visit that a risk evaluation adds has a claim of its item.
* `applyRules_stay`: the rules keep the visits, and the closed ones as they are.
* `TickRun.entered_fresh`: the visit that an item enters next is new.
* `Committed.visits_stay`: every commit keeps the visits, and the closed ones as they are.
-/

namespace JiraSimulator

open Library Library.Outcome Library.Transition ScrumCollections

variable {p : Platform}

/-! ### Claims of a risk evaluation -/

/-- The visit belongs to the state, or the claims allocate a visit of its item. -/
def AllocatedBy (c : ScrumCollections) (claims : List SemanticCounterClaim)
    (visit : StatusVisitState) : Prop :=
  visit.id ∈ c.statusVisits.map (·.id) ∨
    ∃ claim ∈ claims, claim.scope = .visitOrdinal visit.workItemId

/-- More claims allocate the same visits. -/
theorem AllocatedBy.mono {c : ScrumCollections} {claims claims' : List SemanticCounterClaim}
    {visit : StatusVisitState} (h : AllocatedBy c claims visit) (hsubset : claims ⊆ claims') :
    AllocatedBy c claims' visit := by
  rcases h with hmem | ⟨claim, hclaim, hscope⟩
  · exact .inl hmem
  · exact .inr ⟨claim, hsubset hclaim, hscope⟩

/-- Another row of the same visit. -/
theorem AllocatedBy.update {c : ScrumCollections} {claims : List SemanticCounterClaim}
    {visit updated : StatusVisitState} (h : AllocatedBy c claims visit)
    (hid : updated.id = visit.id) (hwork : updated.workItemId = visit.workItemId) :
    AllocatedBy c claims updated := by
  unfold AllocatedBy at h ⊢
  rwa [hid, hwork]

/-- A return claims the ordinal of its new visit. -/
theorem Returns.claimed {context : RiskContext p} {out : RiskRecords p}
    (h : collectRecords (dueReviewRecords context)
      (context.state.scrum.statusVisits.filter (reviewDue context.state context.asOf)) = .ok out)
    {work : WorkItemState} {decision : ReviewDecision} {visit : StatusVisitState}
    {sample : StatusVisitSample} (hreturns : Returns context work decision visit sample) :
    ∃ claim ∈ out.counterClaims, claim.scope = .visitOrdinal visit.workItemId := by
  obtain ⟨review, step, counter, hreturn⟩ := hreturns
  obtain ⟨rs, hall, hmerged⟩ := collectRecords_eq_ok h
  obtain ⟨r, hr, hrecord⟩ :=
    forall₂_exists_right hall (List.mem_filter.mpr ⟨hreturn.mem, hreturn.due⟩)
  obtain ⟨work', decision', hverdict, -, hcases⟩ :=
    dueReviewRecords_eq_ok hreturn.mem hreturn.due hrecord
  obtain rfl : work' = work := by
    have hwork := hverdict.work_eq
    rw [hreturn.work_eq] at hwork
    exact (Except.ok.inj hwork).symm
  obtain rfl : decision' = decision := by
    have hdecided := hverdict.decided
    rw [hreturn.decided] at hdecided
    exact (Except.ok.inj hdecided).symm
  rcases hcases with ⟨hfalse, -⟩ | ⟨step', counter', visit', sample', hreturn', -, hclaims, -⟩
  · rw [hreturn.rejected] at hfalse
    cases hfalse
  · have hscope := (visitCounter_eq_ok hreturn'.counter_eq).2
    refine ⟨{ scope := counter'.scope, expectedNext := counter'.nextValue, count := 1 }, ?_,
      hscope.trans ?_⟩
    · rw [hmerged.counterClaims]
      refine List.mem_flatMap.mpr ⟨r, hr, ?_⟩
      rw [hclaims]
      exact List.mem_singleton_self _
    · rw [hreturn.enters.workItemId_eq]
      rfl

/-- A rule claims the ordinals of the visits that it adds. -/
theorem handler_allocated {c : ScrumCollections} {claims : List SemanticCounterClaim}
    {context : RiskContext p} {out : RiskRecords p}
    {handler : RiskContext p → Result (RiskRecords p)} {working' : LiveTeamState p}
    (hhandler : handlerFor context.rule.key = some handler) (hout : handler context = .ok out)
    (hworking : context.state.withWriteSet out.state = .ok working')
    (hbefore : ∀ visit ∈ context.state.scrum.statusVisits, AllocatedBy c claims visit) :
    ∀ visit ∈ working'.scrum.statusVisits, AllocatedBy c (claims ++ out.counterClaims) visit := by
  have hbefore : ∀ visit ∈ context.state.scrum.statusVisits,
      AllocatedBy c (claims ++ out.counterClaims) visit := fun visit hvisit =>
    (hbefore visit hvisit).mono (List.subset_append_left _ _)
  intro visit hvisit
  cases riskStep_of_handler hhandler hout hworking with
  | silent h => exact hbefore visit (h ▸ hvisit)
  | reviews hkey htrigger h =>
    rcases (h.statusVisits visit).mp hvisit with ⟨work, decision, sample, hreturns⟩ | ⟨hstays, -⟩
    · have hreview : handler = reviewRejection := by
        rw [hkey] at hhandler
        exact (Option.some.inj hhandler).symm
      rw [hreview, reviewRejection, if_neg (by rw [htrigger]; decide)] at hout
      obtain ⟨claim, hclaim, hscope⟩ := Returns.claimed hout hreturns
      exact .inr ⟨claim, List.mem_append_right _ hclaim, hscope⟩
    · exact hbefore visit hstays
  | cancellations hkey boundary hboundary h =>
    rcases (h.statusVisits visit).mp hvisit with ⟨work, decision, hcancels, rfl⟩ | ⟨hstays, -⟩
    · exact (hbefore _ hcancels.visit_mem.1).update rfl rfl
    · exact hbefore visit hstays
  | pauses h =>
    rcases h.mem_of_mem visit hvisit with hmem | ⟨old, hmem, -, delta, rfl, -⟩
    · exact hbefore visit hmem
    · exact (hbefore old hmem).update rfl rfl
  | absences h =>
    rw [h.statusVisits] at hvisit
    exact hbefore visit hvisit

/-- A visit that a risk evaluation adds has a claim of its item. -/
theorem applyRules_claimed {state : LiveTeamState p} {asOf : ℤ} {draws : DrawSource}
    {progress : RiskProgress p} {rules : List RiskRule}
    (h : applyRules asOf draws { working := state, records := {} } rules = .ok progress) :
    ∀ visit ∈ progress.working.scrum.statusVisits,
      AllocatedBy state.scrum.toScrumCollections progress.records.counterClaims visit := by
  refine foldlM_induction (motive := fun progress => ∀ visit ∈ progress.working.scrum.statusVisits,
    AllocatedBy state.scrum.toScrumCollections progress.records.counterClaims visit) h ?_ ?_
  · intro visit hvisit
    exact .inl (List.mem_map_of_mem hvisit)
  · intro progress rule next _ hprogress hstep
    rcases applyRule_eq_ok hstep with rfl | ⟨handler, outcome, hhandler, hout, hrecords, hworking⟩
    · exact hprogress
    · rw [(RiskRecords.merge_eq_ok hrecords).2.2.2.2.1]
      exact handler_allocated hhandler hout hworking hprogress

/-! ### Visits kept by a commit -/

/-- A visit that stays: it keeps its entry, and a closed visit stays as it is. -/
structure StaysVisit (visit visit' : StatusVisitState) : Prop where
  id : visit'.id = visit.id
  enteredAt : visit'.enteredAt = visit.enteredAt
  closed : visit.lifecycle = .CLOSED → visit' = visit

theorem StaysVisit.refl (visit : StatusVisitState) : StaysVisit visit visit :=
  ⟨rfl, rfl, fun _ => rfl⟩

theorem StaysVisit.trans {a b c : StatusVisitState} (h : StaysVisit a b) (h' : StaysVisit b c) :
    StaysVisit a c where
  id := h'.id.trans h.id
  enteredAt := h'.enteredAt.trans h.enteredAt
  closed hclosed := by
    have hb := h.closed hclosed
    rw [h'.closed (hb ▸ hclosed), hb]

/-- The visits of the first state stay in the second. -/
def StaysVisits (c c' : ScrumCollections) : Prop :=
  ∀ visit ∈ c.statusVisits, ∃ visit' ∈ c'.statusVisits, StaysVisit visit visit'

/-- A command claims the ordinals of each item once. -/
theorem claimScopes_nodup {command : AuthoritativeTickSliceCommit p}
    (h : command.validate = .ok ()) : (command.counterClaims.map (·.scope)).Nodup := by
  simp only [AuthoritativeTickSliceCommit.validate, validateClaimBindings, bind_eq_ok, exists_unit,
    require_eq_ok] at h
  exact h.2.2.2.2.2.1

/-- The risks and the progress of a tick claim the ordinals of different items. -/
theorem Assembled.claims_disjoint {slice : TickSliceCommit} {advance : RiskAdvance p}
    {command : AuthoritativeTickSliceCommit p} (h : Assembled slice advance command)
    {claim claim' : SemanticCounterClaim} (hclaim : claim ∈ advance.risks.counterClaims)
    (hclaim' : claim' ∈ advance.result.claims) : claim.scope ≠ claim'.scope := by
  have hnodup := claimScopes_nodup h.valid
  rw [h.claims_eq, List.map_append, List.nodup_append] at hnodup
  exact hnodup.2.2 _ (List.mem_map_of_mem hclaim) _ (List.mem_map_of_mem hclaim')

/-- A rule keeps the visits, unless it returns an item to one of them. -/
theorem RiskStep.visit_stays {c : ScrumCollections} {context : RiskContext p}
    {c' : ScrumCollections} (hc : c.Consistent p) (hcounted : OrdinalsCounted c)
    (hcounters : context.state.scrum.semanticCounters = c.semanticCounters)
    (h : RiskStep context c') {visit : StatusVisitState}
    (hvisit : visit ∈ context.state.scrum.statusVisits)
    (hold : context.rule.key = "REVIEW_REJECTION" → visit.id ∈ c.statusVisits.map (·.id)) :
    ∃ visit' ∈ c'.statusVisits, StaysVisit visit visit' := by
  cases h with
  | silent h => exact ⟨visit, h ▸ hvisit, .refl visit⟩
  | reviews hkey htrigger h =>
    refine ⟨visit, (h.statusVisits visit).mpr (.inr ⟨hvisit, ?_⟩), .refl visit⟩
    rintro work decision returned sample ⟨review, step, counter, hreturn⟩ hid
    obtain ⟨hcounter, hscope⟩ := visitCounter_eq_ok hreturn.counter_eq
    -- the visit of a returned item is new, so it is not this one
    have hnew := hcounted.not_mem_of_counter hc (hcounters ▸ hcounter) hscope
    have hreturned : returned.id = .visit work.id counter.nextValue := hreturn.enters.id_eq
    rw [← hreturned, hid] at hnew
    exact hnew (hold hkey)
  | cancellations hkey boundary hboundary h =>
    by_cases hcancels : ∃ work decision, ItemCancellation context boundary work decision ∧
        decision.visit.id = visit.id
    · obtain ⟨work, decision, hcancels, hid⟩ := hcancels
      refine ⟨_, (h.statusVisits _).mpr (.inl ⟨work, decision, hcancels, rfl⟩), ?_⟩
      obtain rfl : decision.visit = visit := Collection.statusVisits.eq_of_key_eq
        context.state.scrum.complete.toConsistent hcancels.visit_mem.1 hvisit hid
      refine ⟨rfl, rfl, fun hclosed => ?_⟩
      rw [hcancels.visit_mem.2.2] at hclosed
      cases hclosed
    · refine ⟨visit, (h.statusVisits visit).mpr (.inr ⟨hvisit, ?_⟩), .refl visit⟩
      intro work decision hcancel hid
      exact hcancels ⟨work, decision, hcancel, hid⟩
  | pauses h =>
    rcases h.mem_or_paused visit hvisit with hmem | ⟨hopen, delta, hmem⟩
    · exact ⟨visit, hmem, .refl visit⟩
    · refine ⟨pausedBy visit delta, hmem, rfl, rfl, fun hclosed => ?_⟩
      rw [hopen] at hclosed
      cases hclosed
  | absences h => exact ⟨visit, h.statusVisits ▸ hvisit, .refl visit⟩

/-- Only rejected reviews add visits. -/
theorem applyRules_mem_ids {state : LiveTeamState p} {asOf : ℤ} {draws : DrawSource}
    {records : RiskRecords p} {progress : RiskProgress p} {rules : List RiskRule}
    (h : applyRules asOf draws { working := state, records } rules = .ok progress)
    (hnone : ∀ rule ∈ rules, rule.key ≠ "REVIEW_REJECTION") :
    ∀ visit ∈ progress.working.scrum.statusVisits,
      visit.id ∈ state.scrum.statusVisits.map (·.id) := by
  refine riskSteps_induction (motive := fun working => ∀ visit ∈ working.scrum.statusVisits,
    visit.id ∈ state.scrum.statusVisits.map (·.id)) h ?_ ?_
  · exact fun visit hvisit => List.mem_map_of_mem hvisit
  intro rule hrule working working' hworking _ _ hstep visit hvisit
  cases hstep with
  | silent h => exact hworking visit (h ▸ hvisit)
  | reviews hkey => exact absurd hkey (hnone rule hrule)
  | cancellations hkey boundary hboundary h =>
    rcases (h.statusVisits visit).mp hvisit with ⟨work, decision, hcancels, rfl⟩ | ⟨hstays, -⟩
    · exact hworking decision.visit hcancels.visit_mem.1
    · exact hworking visit hstays
  | pauses h =>
    rcases h.mem_of_mem visit hvisit with hmem | ⟨old, hmem, -, delta, rfl, -⟩
    · exact hworking visit hmem
    · exact hworking old hmem
  | absences h => exact hworking visit (h.statusVisits ▸ hvisit)

/-- The rules after the first ones keep the visits, as rules have different keys. -/
theorem applyRules_stay {state : LiveTeamState p} {asOf : ℤ} {draws : DrawSource}
    {records : RiskRecords p} {reached progress : RiskProgress p} {before rest : List RiskRule}
    (hreached : applyRules asOf draws { working := state, records } before = .ok reached)
    (hprogress : applyRules asOf draws reached rest = .ok progress)
    (hcounted : OrdinalsCounted state.scrum.toScrumCollections)
    (hkeys : ((before ++ rest).map (·.key)).Nodup) :
    StaysVisits reached.working.scrum.toScrumCollections
      progress.working.scrum.toScrumCollections := by
  intro visit hvisit
  refine (riskSteps_induction (motive := fun working =>
    working.scrum.semanticCounters = state.scrum.semanticCounters ∧
      ∃ visit' ∈ working.scrum.statusVisits, StaysVisit visit visit') hprogress
    ⟨(applyRules_visits hreached hcounted).1, visit, hvisit, .refl visit⟩ ?_).2
  rintro rule hrule working working' ⟨hcounters, visit', hvisit', hstays⟩ _ hframe hstep
  refine ⟨hframe.semanticCounters.trans hcounters, ?_⟩
  -- no rule before a review rule has added the visit
  have hold : rule.key = "REVIEW_REJECTION" →
      visit'.id ∈ state.scrum.statusVisits.map (·.id) := by
    intro hkey
    rw [hstays.id]
    refine applyRules_mem_ids hreached (fun other hother hreview => ?_) visit hvisit
    rw [List.map_append, List.nodup_append] at hkeys
    exact hkeys.2.2 _ (List.mem_map_of_mem hother) _ (List.mem_map_of_mem hrule)
      (hreview.trans hkey.symm)
  obtain ⟨visit'', hvisit'', hstays'⟩ :=
    hstep.visit_stays state.scrum.complete.toConsistent hcounted hcounters hvisit' hold
  exact ⟨visit'', hvisit'', hstays.trans hstays'⟩

section tick

variable {store store' : TeamStore p} {command : AuthoritativeTickSliceCommit p}
  {draws : DrawSource} {advance : RiskAdvance p} {outcome : SegmentsOutcome}
  {finish : StatusVisitState → FinishedVisit}
  (hreach : (teamRuns p).Reachable store)
  (hrun : TickRun store.state draws advance outcome finish)

include hreach hrun

/-- The risks keep the visits of the state. -/
theorem TickRun.risks_stay :
    StaysVisits store.scrum.toScrumCollections advance.state.scrum.toScrumCollections := by
  have hnone : applyRules advance.result.endsAt draws { working := store.state, records := {} } [] =
      .ok { working := store.state, records := {} } := rfl
  exact applyRules_stay hnone (evaluateDueRisks_working hrun.risks hrun.working)
    (ordinalsCounted_of_reachable hreach) store.aggregate.blueprint.ruleKeys_nodup

/-- The visit that an item enters next is not a working visit, since it has claimed its ordinal. -/
theorem TickRun.entered_fresh (hcommitted : Committed store command store')
    (hassembled : Assembled command.liveSlice advance command) {visit x : StatusVisitState}
    (hvisit : visit ∈ advance.result.visits) {counter : SemanticCounter}
    (hcounter : counter ∈ advance.state.scrum.semanticCounters)
    (hscope : counter.scope = .visitOrdinal x.workItemId) (hwork : visit.workItemId = x.workItemId)
    (hid : visit.id = .visit x.workItemId counter.nextValue)
    (hclaim : ∃ claim ∈ advance.result.claims, claim.scope = .visitOrdinal x.workItemId) :
    visit.id ∉ advance.state.scrum.statusVisits.map (·.id) := by
  intro hold
  obtain ⟨old, hmem, hsame⟩ := List.mem_map.mp hold
  have hafter := hcommitted.afterTick hrun.working hassembled
  have hrules := evaluateDueRisks_working hrun.risks hrun.working
  have hcounted := ordinalsCounted_of_reachable hreach
  rw [(applyRules_visits hrules hcounted).1] at hcounter
  have hnew := hcounted.not_mem_of_counter store.scrum.complete.toConsistent hcounter hscope
  rw [← hid, ← hsame] at hnew
  rcases applyRules_claimed hrules old hmem with hstored | ⟨claim, hclaimed, hscope'⟩
  · exact hnew hstored
  · obtain ⟨claim', hclaimed', hscope''⟩ := hclaim
    have hitem : visit.workItemId = old.workItemId :=
      StatusVisitState.Valid.workItemId_eq (hafter.progress.visit_valid hvisit)
        (advance.state.scrum.complete.toConsistent.visit_valid hmem) hsame.symm
    refine hassembled.claims_disjoint hclaimed hclaimed' ?_
    rw [hscope', hscope'', ← hitem, hwork]

/-- The progress keeps the working visits: the visit that an item enters next is new, since it has
claimed its ordinal. -/
theorem TickRun.progress_stays (hcommitted : Committed store command store')
    (hassembled : Assembled command.liveSlice advance command) :
    StaysVisits advance.state.scrum.toScrumCollections store'.scrum.toScrumCollections := by
  intro visit hvisit
  have hafter := hcommitted.afterTick hrun.working hassembled
  have hconsistent := advance.state.scrum.complete.toConsistent
  by_cases hwritten : visit.id ∈ advance.result.visits.map (·.id)
  · obtain ⟨visit', hvisit', hid⟩ := List.mem_map.mp hwritten
    refine ⟨visit', (hafter.visits visit').mpr (.inl hvisit'), ?_⟩
    -- an open visit has no closed row to keep
    have hstays : ∀ before ∈ openVisits advance.state, before.id = visit'.id →
        visit'.enteredAt = before.enteredAt → StaysVisit visit visit' := by
      intro before hbefore hid' hentered
      obtain ⟨hmem, hopen⟩ := mem_openVisits.mp hbefore
      obtain rfl : before = visit :=
        Collection.statusVisits.eq_of_key_eq hconsistent hmem hvisit (hid'.trans hid)
      exact ⟨hid, hentered, fun hclosed => by rw [hopen] at hclosed; cases hclosed⟩
    cases hrun.writtenVisit hvisit' with
    | progressed before hbefore same => exact hstays before hbefore same.id.symm same.enteredAt
    | closed before x hbefore same h =>
      subst h
      exact hstays before hbefore same.id.symm same.enteredAt
    | entered before x hbefore same _ counter hcounter hscope _ hwork hid' _ _ hclaim =>
      have hnew := hrun.entered_fresh hreach hcommitted hassembled hvisit' hcounter hscope hwork hid'
        hclaim
      exact absurd (List.mem_map.mpr ⟨visit, hvisit, hid.symm⟩) hnew
  · exact ⟨visit, (hafter.visits visit).mpr (.inr ⟨hvisit, hwritten⟩), .refl visit⟩

end tick

/-- Every commit keeps the visits. -/
theorem Committed.visits_stay {store store' : TeamStore p} {event : TeamEvent}
    {command : AuthoritativeTickSliceCommit p} (h : Committed store command store')
    (hreach : (teamRuns p).Reachable store) (hof : CommandOf store.state event command) :
    StaysVisits store.scrum.toScrumCollections store'.scrum.toScrumCollections := by
  cases hof with
  | tick request draws advance _ _ hadvance _ _ hassembled =>
    obtain ⟨outcome, finish, hrun⟩ := tickAdvance_eq_ok hadvance
    intro visit hvisit
    obtain ⟨middle, hmiddle, hfirst⟩ := hrun.risks_stay hreach visit hvisit
    obtain ⟨visit', hvisit', hsecond⟩ := hrun.progress_stays hreach h hassembled middle hmiddle
    exact ⟨visit', hvisit', hfirst.trans hsecond⟩
  | boundary instant transition _ hstep _ hstate =>
    intro visit hvisit
    obtain ⟨visit', hvisit', hid⟩ := h.mem_keys Collection.statusVisits (fun _ _ _ => rfl) hvisit
    rcases boundary_visits hreach h hstep hstate hvisit' with hmem | ⟨hnew, -⟩
    · obtain rfl : visit' = visit :=
        Collection.statusVisits.eq_of_key_eq store.scrum.complete.toConsistent hmem hvisit hid
      exact ⟨visit', hvisit', .refl visit'⟩
    · exact absurd (List.mem_map.mpr ⟨visit, hvisit, hid.symm⟩) hnew
  | downtime hstate =>
    intro visit hvisit
    exact ⟨visit, (h.mem_of_empty Collection.statusVisits (fun _ _ _ => rfl) hstate).mpr hvisit,
      .refl visit⟩

end JiraSimulator
