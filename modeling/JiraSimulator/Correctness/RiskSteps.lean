import JiraSimulator.Correctness.RiskHandlers

/-!
# The state after one risk rule

`RiskStep` says what applying one rule does to the working state: nothing, returns of rejected
reviews, cancellations, pauses or absences.  Every invariant of a risk evaluation is proved from it
by the rule for the loop over the rules.
-/

namespace JiraSimulator

open Library Library.Outcome ScrumCollections

variable {p : Platform}

/-- The collections that no risk rule writes. -/
structure RiskFrame (c c' : ScrumCollections) : Prop where
  memberIdentities : c'.memberIdentities = c.memberIdentities
  memberBusinessDateConsumption :
    c'.memberBusinessDateConsumption = c.memberBusinessDateConsumption
  workItemFactors : c'.workItemFactors = c.workItemFactors
  sprints : c'.sprints = c.sprints
  sprintScope : c'.sprintScope = c.sprintScope
  semanticCounters : c'.semanticCounters = c.semanticCounters
  naturalDecisionEvaluations : c'.naturalDecisionEvaluations = c.naturalDecisionEvaluations

theorem RiskFrame.refl (c : ScrumCollections) : RiskFrame c c :=
  ⟨rfl, rfl, rfl, rfl, rfl, rfl, rfl⟩

theorem RiskFrame.trans {a b c : ScrumCollections} (h : RiskFrame a b) (h' : RiskFrame b c) :
    RiskFrame a c :=
  ⟨h'.1.trans h.1, h'.2.trans h.2, h'.3.trans h.3, h'.4.trans h.4, h'.5.trans h.5,
    h'.6.trans h.6, h'.7.trans h.7⟩

/-! ### Returns -/

/-- Some rejected review returns the item. -/
def Returns (context : RiskContext p) (work : WorkItemState) (decision : ReviewDecision)
    (visit : StatusVisitState) (sample : StatusVisitSample) : Prop :=
  ∃ review step counter, ReviewReturn context review work decision step counter visit sample

/-- The rows after the due reviews were decided. -/
structure ReviewStep (context : RiskContext p) (c' : ScrumCollections) : Prop where
  overlays : c'.memberAvailabilityOverlays = context.state.scrum.memberAvailabilityOverlays
  workItems : ∀ w, w ∈ c'.workItems ↔
    (∃ work decision visit sample, Returns context work decision visit sample ∧
      w = returnedWork work decision.target (cursor context.state)) ∨
    (w ∈ context.state.scrum.workItems ∧
      ∀ work decision visit sample, Returns context work decision visit sample → work.id ≠ w.id)
  statusVisits : ∀ v, v ∈ c'.statusVisits ↔
    (∃ work decision sample, Returns context work decision v sample) ∨
    (v ∈ context.state.scrum.statusVisits ∧
      ∀ work decision visit sample, Returns context work decision visit sample → visit.id ≠ v.id)
  samples : ∀ s, s ∈ c'.statusVisitSamples ↔
    (∃ work decision visit, Returns context work decision visit s) ∨
    (s ∈ context.state.scrum.statusVisitSamples ∧
      ∀ work decision visit sample, Returns context work decision visit sample →
        sample.visitId ≠ s.visitId)

theorem Returns.work_mem {context : RiskContext p} {work : WorkItemState}
    {decision : ReviewDecision} {visit : StatusVisitState} {sample : StatusVisitSample}
    (h : Returns context work decision visit sample) : work ∈ context.state.scrum.workItems := by
  obtain ⟨review, step, counter, h⟩ := h
  exact (mem_of_next h.work_eq).1

/-- Returns of items with one identity agree. -/
theorem Returns.unique {context : RiskContext p} {work work' : WorkItemState}
    {decision decision' : ReviewDecision} {visit visit' : StatusVisitState}
    {sample sample' : StatusVisitSample} (h : Returns context work decision visit sample)
    (h' : Returns context work' decision' visit' sample') (hid : work.id = work'.id) :
    work = work' ∧ decision.target = decision'.target ∧ visit = visit' ∧ sample = sample' := by
  have hwork : work = work' := Collection.workItems.eq_of_key_eq
    context.state.scrum.complete.toConsistent h.work_mem h'.work_mem hid
  obtain ⟨review, step, counter, h⟩ := h
  obtain ⟨review', step', counter', h'⟩ := h'
  exact ⟨hwork, h.unique h' hwork⟩

section

variable {context : RiskContext p} {out : RiskRecords p}
  (h : collectRecords (dueReviewRecords context)
    (context.state.scrum.statusVisits.filter (reviewDue context.state context.asOf)) = .ok out)

include h

/-- The rows of a collection that the due reviews write, given those of one return. -/
theorem mem_reviewRows {α κ : Type} [DecidableEq κ] (col : Collection α κ)
    (rowOf : WorkItemState → ReviewDecision → StatusVisitState → StatusVisitSample → α)
    (hcol : ∀ work decision visit sample, col.rows {
        workItems := [returnedWork work decision.target (cursor context.state)]
        statusVisits := [visit], statusVisitSamples := [sample] } =
      [rowOf work decision visit sample])
    (hunique : ∀ work decision visit sample work' decision' visit' sample',
      Returns context work decision visit sample → Returns context work' decision' visit' sample' →
      col.key (rowOf work decision visit sample) = col.key (rowOf work' decision' visit' sample') →
        rowOf work decision visit sample = rowOf work' decision' visit' sample') {a : α} :
    a ∈ col.rows out.state.toScrumCollections ↔
      ∃ work decision visit sample, Returns context work decision visit sample ∧
        a = rowOf work decision visit sample := by
  -- a due review writes a row only if it is rejected
  have hrow : ∀ review ∈ context.state.scrum.statusVisits.filter
      (reviewDue context.state context.asOf), ∀ r, dueReviewRecords context review = .ok r →
      ∀ a ∈ col.rows r.state.toScrumCollections, ∃ work decision visit sample,
        Returns context work decision visit sample ∧ a = rowOf work decision visit sample := by
    intro review hreview r hr a ha
    obtain ⟨hmem, hdue⟩ := List.mem_filter.mp hreview
    obtain ⟨work, decision, -, -, ⟨-, hsilent⟩ | ⟨step, counter, visit, sample, hreturn, hstate, -⟩⟩
      := dueReviewRecords_eq_ok hmem hdue hr
    · rw [hsilent.state, col.rows_empty] at ha
      cases ha
    · rw [hstate, hcol, List.mem_singleton] at ha
      exact ⟨work, decision, visit, sample, ⟨review, step, counter, hreturn⟩, ha⟩
  rw [collectRecords_mem_rows h col]
  · constructor
    · rintro ⟨review, hreview, r, hr, ha⟩
      exact hrow review hreview r hr a ha
    · rintro ⟨work, decision, visit, sample, ⟨review, step, counter, hreturn⟩, rfl⟩
      have hreview := List.mem_filter.mpr ⟨hreturn.mem, hreturn.due⟩
      obtain ⟨r, hr⟩ := collectRecords_exists_ok h hreview
      refine ⟨review, hreview, r, hr, ?_⟩
      obtain ⟨work', decision', hverdict, -, hcases⟩ :=
        dueReviewRecords_eq_ok hreturn.mem hreturn.due hr
      -- the verdict on a review is the one with which it returns
      obtain rfl : work' = work := by
        have hwork := hverdict.work_eq
        rw [hreturn.work_eq] at hwork
        exact (Except.ok.inj hwork).symm
      obtain rfl : decision' = decision := by
        have hdecided := hverdict.decided
        rw [hreturn.decided] at hdecided
        exact (Except.ok.inj hdecided).symm
      rcases hcases with ⟨hfalse, -⟩ | ⟨step', counter', visit', sample', hreturn', hstate, -⟩
      · rw [hreturn.rejected] at hfalse
        cases hfalse
      · obtain ⟨-, rfl, rfl⟩ := hreturn.unique hreturn' rfl
        rw [hstate, hcol]
        exact List.mem_singleton_self _
  · -- two reviews write the same row or rows with distinct keys
    intro review hreview review' hreview' r s hr hs a ha b hb hkey
    obtain ⟨work, decision, visit, sample, hreturns, rfl⟩ := hrow review hreview r hr a ha
    obtain ⟨work', decision', visit', sample', hreturns', rfl⟩ :=
      hrow review' hreview' s hs b hb
    exact hunique _ _ _ _ _ _ _ _ hreturns hreturns' hkey

theorem mem_reviewRows_workItems {w : WorkItemState} :
    w ∈ out.state.workItems ↔ ∃ work decision visit sample,
      Returns context work decision visit sample ∧
        w = returnedWork work decision.target (cursor context.state) := by
  refine mem_reviewRows h Collection.workItems
    (fun work decision _ _ => returnedWork work decision.target (cursor context.state))
    (fun _ _ _ _ => rfl) ?_
  intro work decision visit sample work' decision' visit' sample' hr hr' hkey
  obtain ⟨rfl, htarget, -⟩ := hr.unique hr' hkey
  rw [htarget]

theorem mem_reviewRows_statusVisits {v : StatusVisitState} :
    v ∈ out.state.statusVisits ↔ ∃ work decision sample,
      Returns context work decision v sample := by
  have hmem := mem_reviewRows (a := v) h Collection.statusVisits (fun _ _ visit _ => visit)
    (fun _ _ _ _ => rfl) ?_
  · rw [hmem]
    constructor
    · rintro ⟨work, decision, visit, sample, hr, rfl⟩
      exact ⟨work, decision, sample, hr⟩
    · rintro ⟨work, decision, sample, hr⟩
      exact ⟨work, decision, v, sample, hr, rfl⟩
  · intro work decision visit sample work' decision' visit' sample' hr hr' hkey
    have hid : work.id = work'.id := by
      obtain ⟨_, _, _, hreturn⟩ := hr
      obtain ⟨_, _, _, hreturn'⟩ := hr'
      have hkey : visit.id = visit'.id := hkey
      rw [hreturn.enters.id_eq, hreturn'.enters.id_eq] at hkey
      injection hkey
    exact (hr.unique hr' hid).2.2.1

theorem mem_reviewRows_samples {s : StatusVisitSample} :
    s ∈ out.state.statusVisitSamples ↔ ∃ work decision visit,
      Returns context work decision visit s := by
  have hmem := mem_reviewRows (a := s) h Collection.samples (fun _ _ _ sample => sample)
    (fun _ _ _ _ => rfl) ?_
  · rw [hmem]
    constructor
    · rintro ⟨work, decision, visit, sample, hr, rfl⟩
      exact ⟨work, decision, visit, hr⟩
    · rintro ⟨work, decision, visit, hr⟩
      exact ⟨work, decision, visit, s, hr, rfl⟩
  · intro work decision visit sample work' decision' visit' sample' hr hr' hkey
    have hid : work.id = work'.id := by
      obtain ⟨_, _, _, hreturn⟩ := hr
      obtain ⟨_, _, _, hreturn'⟩ := hr'
      have hkey : sample.visitId = sample'.visitId := hkey
      rw [hreturn.enters.sample_visitId, hreturn'.enters.sample_visitId, hreturn.enters.id_eq,
        hreturn'.enters.id_eq] at hkey
      injection hkey
    exact (hr.unique hr' hid).2.2.2

/-- A collection that no return writes stays empty. -/
theorem reviewRows_eq_nil {α κ : Type} [DecidableEq κ] (col : Collection α κ)
    (hcol : ∀ w v s, col.rows {
      workItems := [w], statusVisits := [v], statusVisitSamples := [s] } = []) :
    col.rows out.state.toScrumCollections = [] := by
  refine collectRecords_rows_eq_nil h col fun review hreview r hr => ?_
  obtain ⟨hmem, hdue⟩ := List.mem_filter.mp hreview
  obtain ⟨work, decision, -, -, ⟨-, hsilent⟩ | ⟨step, counter, visit, sample, -, hstate, -⟩⟩ :=
    dueReviewRecords_eq_ok hmem hdue hr
  · rw [hsilent.state, col.rows_empty]
  · rw [hstate, hcol]

end

theorem reviewStep_of_collectRecords {context : RiskContext p} {out : RiskRecords p}
    {working' : LiveTeamState p}
    (h : collectRecords (dueReviewRecords context)
      (context.state.scrum.statusVisits.filter (reviewDue context.state context.asOf)) = .ok out)
    (hworking : context.state.withWriteSet out.state = .ok working') :
    ReviewStep context working'.scrum.toScrumCollections := by
  have hstate := context.state.scrum.complete.toConsistent
  have hout := out.state.consistent
  obtain ⟨-, hscrum⟩ := LiveTeamState.withWriteSet_eq_ok.mp hworking
  rw [hscrum]
  -- each collection holds the rows of the returned items and the others as they were
  refine ⟨?_, fun w => ?_, fun v => ?_, fun s => ?_⟩
  · exact Collection.overlays.rows_updateWith_of_nil hstate
      (reviewRows_eq_nil h Collection.overlays fun _ _ _ => rfl)
  · rw [Collection.workItems.mem_updateWith hstate hout, mem_reviewRows_workItems h]
    refine or_congr_right (and_congr_right fun _ => ?_)
    constructor
    · intro hnot work decision visit sample hr hid
      refine hnot (List.mem_map.mpr ⟨_, (mem_reviewRows_workItems h).mpr
        ⟨work, decision, visit, sample, hr, rfl⟩, hid⟩)
    · rintro hall hmem
      obtain ⟨w', hw', hid⟩ := List.mem_map.mp hmem
      obtain ⟨work, decision, visit, sample, hr, rfl⟩ := (mem_reviewRows_workItems h).mp hw'
      exact hall work decision visit sample hr hid
  · rw [Collection.statusVisits.mem_updateWith hstate hout, mem_reviewRows_statusVisits h]
    refine or_congr_right (and_congr_right fun _ => ?_)
    constructor
    · intro hnot work decision visit sample hr hid
      refine hnot (List.mem_map.mpr ⟨_, (mem_reviewRows_statusVisits h).mpr
        ⟨work, decision, sample, hr⟩, hid⟩)
    · rintro hall hmem
      obtain ⟨v', hv', hid⟩ := List.mem_map.mp hmem
      obtain ⟨work, decision, sample, hr⟩ := (mem_reviewRows_statusVisits h).mp hv'
      exact hall work decision v' sample hr hid
  · rw [Collection.samples.mem_updateWith hstate hout, mem_reviewRows_samples h]
    refine or_congr_right (and_congr_right fun _ => ?_)
    constructor
    · intro hnot work decision visit sample hr hid
      refine hnot (List.mem_map.mpr ⟨_, (mem_reviewRows_samples h).mpr
        ⟨work, decision, visit, hr⟩, hid⟩)
    · rintro hall hmem
      obtain ⟨s', hs', hid⟩ := List.mem_map.mp hmem
      obtain ⟨work, decision, visit, hr⟩ := (mem_reviewRows_samples h).mp hs'
      exact hall work decision visit s' hr hid

/-! ### Cancellations -/

/-- The rows after the cancellations of a workday start were decided. -/
structure CancellationStep (context : RiskContext p) (boundary : ℤ) (c' : ScrumCollections) :
    Prop where
  overlays : c'.memberAvailabilityOverlays = context.state.scrum.memberAvailabilityOverlays
  samples : c'.statusVisitSamples = context.state.scrum.statusVisitSamples
  workItems : ∀ w, w ∈ c'.workItems ↔
    (∃ work decision, ItemCancellation context boundary work decision ∧
      w = cancelledWork work decision.target boundary) ∨
    (w ∈ context.state.scrum.workItems ∧
      ∀ work decision, ItemCancellation context boundary work decision → work.id ≠ w.id)
  statusVisits : ∀ v, v ∈ c'.statusVisits ↔
    (∃ work decision, ItemCancellation context boundary work decision ∧
      v = cancelledVisit decision.visit boundary) ∨
    (v ∈ context.state.scrum.statusVisits ∧
      ∀ work decision, ItemCancellation context boundary work decision → decision.visit.id ≠ v.id)

section

variable {context : RiskContext p} {boundary : ℤ}

/-- The visit that a cancellation closes is the open visit of its item. -/
theorem CancellationVerdict.visit_mem {work : WorkItemState} {decision : CancellationDecision}
    (h : CancellationVerdict context boundary work decision) :
    decision.visit ∈ context.state.scrum.statusVisits ∧ decision.visit.workItemId = work.id ∧
      decision.visit.lifecycle = .OPEN := by
  obtain ⟨hmem, hvisit⟩ := mem_of_next h.visit_eq
  simp only [Bool.and_eq_true, decide_eq_true_eq] at hvisit
  exact ⟨hmem, hvisit.1, hvisit.2⟩

/-- Cancellations of items with one identity agree. -/
theorem ItemCancellation.unique {work work' : WorkItemState}
    {decision decision' : CancellationDecision}
    (h : ItemCancellation context boundary work decision)
    (h' : ItemCancellation context boundary work' decision') (hid : work.id = work'.id) :
    work = work' ∧ decision = decision' := by
  obtain rfl : work = work' := Collection.workItems.eq_of_key_eq
    context.state.scrum.complete.toConsistent h.mem h'.mem hid
  have hdecided := h.decided
  rw [h'.decided] at hdecided
  exact ⟨rfl, (Except.ok.inj hdecided).symm⟩

variable {out : RiskRecords p} (htrigger : context.rule.trigger = "WORKDAY_STARTED")
  (hboundary : workdayBoundary context.state context.asOf = .ok (some boundary))
  (h : collectRecords (cancellationRecords { context with asOf := boundary })
    (activeWork context.state) = .ok out)

include htrigger hboundary h

/-- The rows of a collection that the cancellations write, given those of one. -/
theorem mem_cancellationRows {α κ : Type} [DecidableEq κ] (col : Collection α κ)
    (rowOf : WorkItemState → CancellationDecision → α)
    (hcol : ∀ work decision, col.rows {
        workItems := [cancelledWork work decision.target boundary]
        statusVisits := [cancelledVisit decision.visit boundary] } = [rowOf work decision])
    (hunique : ∀ work decision work' decision',
      ItemCancellation context boundary work decision →
      ItemCancellation context boundary work' decision' →
      col.key (rowOf work decision) = col.key (rowOf work' decision') → work.id = work'.id)
    {a : α} :
    a ∈ col.rows out.state.toScrumCollections ↔
      ∃ work decision, ItemCancellation context boundary work decision ∧
        a = rowOf work decision := by
  -- an active item writes a row only if it is cancelled
  have hrow : ∀ work ∈ activeWork context.state, ∀ r,
      cancellationRecords { context with asOf := boundary } work = .ok r →
      ∀ a ∈ col.rows r.state.toScrumCollections, ∃ decision,
        ItemCancellation context boundary work decision ∧ a = rowOf work decision := by
    intro work hwork r hr a ha
    obtain ⟨decision, -, -, -, ⟨-, hstate, -⟩ | ⟨hcancel, hstate, -⟩⟩ :=
      cancellationRecords_eq_ok htrigger hboundary hwork hr
    · rw [hstate, col.rows_empty] at ha
      cases ha
    · rw [hstate, hcol, List.mem_singleton] at ha
      exact ⟨decision, hcancel, ha⟩
  rw [collectRecords_mem_rows h col]
  · constructor
    · rintro ⟨work, hwork, r, hr, ha⟩
      exact ⟨work, hrow work hwork r hr a ha⟩
    · rintro ⟨work, decision, hcancel, rfl⟩
      have hwork : work ∈ activeWork context.state :=
        List.mem_filter.mpr ⟨hcancel.mem, by simpa using hcancel.active⟩
      obtain ⟨r, hr⟩ := collectRecords_exists_ok h hwork
      refine ⟨work, hwork, r, hr, ?_⟩
      obtain ⟨decision', hverdict, -, -, hcases⟩ :=
        cancellationRecords_eq_ok htrigger hboundary hwork hr
      -- the decision on an item is the one with which it is cancelled
      obtain rfl : decision' = decision := by
        have hdecided := hverdict.decided
        rw [hcancel.decided] at hdecided
        exact (Except.ok.inj hdecided).symm
      rcases hcases with ⟨hfalse, -⟩ | ⟨-, hstate, -⟩
      · rw [hcancel.outcome] at hfalse
        cases hfalse
      · rw [hstate, hcol]
        exact List.mem_singleton_self _
  · intro work hwork work' hwork' r s hr hs a ha b hb hkey
    obtain ⟨decision, hcancel, rfl⟩ := hrow work hwork r hr a ha
    obtain ⟨decision', hcancel', rfl⟩ := hrow work' hwork' s hs b hb
    obtain ⟨rfl, rfl⟩ := hcancel.unique hcancel'
      (hunique _ _ _ _ hcancel hcancel' hkey)
    rfl

theorem mem_cancellationRows_workItems {w : WorkItemState} :
    w ∈ out.state.workItems ↔ ∃ work decision, ItemCancellation context boundary work decision ∧
      w = cancelledWork work decision.target boundary :=
  mem_cancellationRows htrigger hboundary h Collection.workItems
    (fun work decision => cancelledWork work decision.target boundary) (fun _ _ => rfl)
    fun _ _ _ _ _ _ hkey => hkey

theorem mem_cancellationRows_statusVisits {v : StatusVisitState} :
    v ∈ out.state.statusVisits ↔ ∃ work decision,
      ItemCancellation context boundary work decision ∧
        v = cancelledVisit decision.visit boundary := by
  refine mem_cancellationRows htrigger hboundary h Collection.statusVisits
    (fun _ decision => cancelledVisit decision.visit boundary) (fun _ _ => rfl) ?_
  intro work decision work' decision' hcancel hcancel' hkey
  obtain ⟨hmem, hwork, -⟩ := hcancel.visit_mem
  obtain ⟨hmem', hwork', -⟩ := hcancel'.visit_mem
  have hvisit : decision.visit = decision'.visit := Collection.statusVisits.eq_of_key_eq
    context.state.scrum.complete.toConsistent hmem hmem' hkey
  rw [← hwork, hvisit, hwork']

/-- A collection that no cancellation writes stays empty. -/
theorem cancellationRows_eq_nil {α κ : Type} [DecidableEq κ] (col : Collection α κ)
    (hcol : ∀ w v, col.rows { workItems := [w], statusVisits := [v] } = []) :
    col.rows out.state.toScrumCollections = [] := by
  refine collectRecords_rows_eq_nil h col fun work hwork r hr => ?_
  obtain ⟨decision, -, -, -, ⟨-, hstate, -⟩ | ⟨-, hstate, -⟩⟩ :=
    cancellationRecords_eq_ok htrigger hboundary hwork hr
  · rw [hstate, col.rows_empty]
  · rw [hstate, hcol]

theorem cancellationStep_of_collectRecords {working' : LiveTeamState p}
    (hworking : context.state.withWriteSet out.state = .ok working') :
    CancellationStep context boundary working'.scrum.toScrumCollections := by
  have hstate := context.state.scrum.complete.toConsistent
  have hout := out.state.consistent
  obtain ⟨-, hscrum⟩ := LiveTeamState.withWriteSet_eq_ok.mp hworking
  rw [hscrum]
  refine ⟨?_, ?_, fun w => ?_, fun v => ?_⟩
  · exact Collection.overlays.rows_updateWith_of_nil hstate
      (cancellationRows_eq_nil htrigger hboundary h Collection.overlays fun _ _ => rfl)
  · exact Collection.samples.rows_updateWith_of_nil hstate
      (cancellationRows_eq_nil htrigger hboundary h Collection.samples fun _ _ => rfl)
  · -- an item stays unless the rule cancels it
    rw [Collection.workItems.mem_updateWith hstate hout,
      mem_cancellationRows_workItems htrigger hboundary h]
    refine or_congr_right (and_congr_right fun _ => ?_)
    constructor
    · intro hnot work decision hcancel hid
      exact hnot (List.mem_map.mpr ⟨_, (mem_cancellationRows_workItems htrigger hboundary h).mpr
        ⟨work, decision, hcancel, rfl⟩, hid⟩)
    · rintro hall hmem
      obtain ⟨w', hw', hid⟩ := List.mem_map.mp hmem
      obtain ⟨work, decision, hcancel, rfl⟩ :=
        (mem_cancellationRows_workItems htrigger hboundary h).mp hw'
      exact hall work decision hcancel hid
  · -- and so does a visit
    rw [Collection.statusVisits.mem_updateWith hstate hout,
      mem_cancellationRows_statusVisits htrigger hboundary h]
    refine or_congr_right (and_congr_right fun _ => ?_)
    constructor
    · intro hnot work decision hcancel hid
      exact hnot (List.mem_map.mpr ⟨_, (mem_cancellationRows_statusVisits htrigger hboundary h).mpr
        ⟨work, decision, hcancel, rfl⟩, hid⟩)
    · rintro hall hmem
      obtain ⟨v', hv', hid⟩ := List.mem_map.mp hmem
      obtain ⟨work, decision, hcancel, rfl⟩ :=
        (mem_cancellationRows_statusVisits htrigger hboundary h).mp hv'
      exact hall work decision hcancel hid

end

/-! ### Pauses and absences -/

/-- The rows after the external dependencies were decided. -/
structure PauseStep (c c' : ScrumCollections) : Prop where
  overlays : c'.memberAvailabilityOverlays = c.memberAvailabilityOverlays
  workItems : c'.workItems = c.workItems
  samples : c'.statusVisitSamples = c.statusVisitSamples
  mem_of_mem : ∀ v ∈ c'.statusVisits, v ∈ c.statusVisits ∨
    ∃ u ∈ c.statusVisits, u.lifecycle = .OPEN ∧ ∃ delta, v = pausedBy u delta ∧ v.Valid
  mem_or_paused : ∀ u ∈ c.statusVisits, u ∈ c'.statusVisits ∨
    (u.lifecycle = .OPEN ∧ ∃ delta, pausedBy u delta ∈ c'.statusVisits)

theorem pauseStep_of_collectRecords {context : RiskContext p} {out : RiskRecords p}
    {working' : LiveTeamState p}
    (h : collectRecords (dependencyRecords context) (openVisits context.state) = .ok out)
    (hworking : context.state.withWriteSet out.state = .ok working') :
    PauseStep context.state.scrum.toScrumCollections working'.scrum.toScrumCollections := by
  have hstate := context.state.scrum.complete.toConsistent
  have hout := out.state.consistent
  have hnil : ∀ {α κ : Type} [DecidableEq κ] (col : Collection α κ),
      (∀ v, col.rows { statusVisits := [v] } = []) →
        col.rows out.state.toScrumCollections = [] := by
    intro α κ _ col hcol
    refine collectRecords_rows_eq_nil h col fun visit _ r hr => ?_
    obtain ⟨-, -, -, hrow | ⟨delta, -, hrow⟩⟩ := dependencyRecords_eq_ok hr
    · rw [hrow, col.rows_empty]
    · rw [hrow, hcol]
  -- a visit that is written is an open one with a longer pause
  have hpaused : ∀ v ∈ out.state.statusVisits, ∃ u ∈ context.state.scrum.statusVisits,
      u.lifecycle = .OPEN ∧ ∃ delta, v = pausedBy u delta ∧ v.Valid := by
    intro v hv
    obtain ⟨u, hu, r, hr, hv⟩ := collectRecords_exists_of_mem h Collection.statusVisits hv
    obtain ⟨hu, hopen⟩ := List.mem_filter.mp hu
    obtain ⟨-, -, -, hrow | ⟨delta, hpause, hrow⟩⟩ := dependencyRecords_eq_ok hr
    · rw [hrow] at hv
      cases hv
    · rw [hrow, List.mem_singleton] at hv
      exact ⟨u, hu, by simpa using hopen, delta, hv, hv ▸ hpause.valid⟩
  obtain ⟨-, hscrum⟩ := LiveTeamState.withWriteSet_eq_ok.mp hworking
  rw [hscrum]
  refine ⟨?_, ?_, ?_, fun v hv => ?_, fun u hu => ?_⟩
  · exact Collection.overlays.rows_updateWith_of_nil hstate (hnil _ fun _ => rfl)
  · exact Collection.workItems.rows_updateWith_of_nil hstate (hnil _ fun _ => rfl)
  · exact Collection.samples.rows_updateWith_of_nil hstate (hnil _ fun _ => rfl)
  · rcases (Collection.statusVisits.mem_updateWith hstate hout).mp hv with hv | ⟨hv, -⟩
    · exact .inr (hpaused v hv)
    · exact .inl hv
  · by_cases hkey : u.id ∈ out.state.statusVisits.map (·.id)
    · obtain ⟨v, hv, hid⟩ := List.mem_map.mp hkey
      obtain ⟨u', hu', hopen, delta, rfl, -⟩ := hpaused v hv
      obtain rfl : u' = u := Collection.statusVisits.eq_of_key_eq hstate hu' hu hid
      exact .inr ⟨hopen, delta,
        (Collection.statusVisits.mem_updateWith hstate hout).mpr (.inl hv)⟩
    · exact .inl ((Collection.statusVisits.mem_updateWith hstate hout).mpr (.inr ⟨hu, hkey⟩))

/-- The rows after the absences of a workday start were decided. -/
structure AbsenceStep (context : RiskContext p) (c' : ScrumCollections) : Prop where
  workItems : c'.workItems = context.state.scrum.workItems
  statusVisits : c'.statusVisits = context.state.scrum.statusVisits
  samples : c'.statusVisitSamples = context.state.scrum.statusVisitSamples
  overlays : ∀ o ∈ c'.memberAvailabilityOverlays,
    o ∈ context.state.scrum.memberAvailabilityOverlays ∨
      (o.memberId ∈ visitOwners context.state ∧ o.validate = .ok ())

theorem absenceStep_of_collectRecords {context : RiskContext p} {boundary : ℤ}
    {out : RiskRecords p} {working' : LiveTeamState p}
    (h : collectRecords (unavailabilityRecords { context with asOf := boundary })
      (visitOwners context.state) = .ok out)
    (hworking : context.state.withWriteSet out.state = .ok working') :
    AbsenceStep context working'.scrum.toScrumCollections := by
  have hstate := context.state.scrum.complete.toConsistent
  have hout := out.state.consistent
  have hnil : ∀ {α κ : Type} [DecidableEq κ] (col : Collection α κ),
      (∀ os, col.rows { memberAvailabilityOverlays := os } = []) →
        col.rows out.state.toScrumCollections = [] := by
    intro α κ _ col hcol
    refine collectRecords_rows_eq_nil h col fun owner _ r hr => ?_
    obtain ⟨overlays, claim, eligible, hrow, -⟩ := unavailabilityRecords_eq_ok hr
    rw [hrow, hcol]
  obtain ⟨-, hscrum⟩ := LiveTeamState.withWriteSet_eq_ok.mp hworking
  rw [hscrum]
  refine ⟨?_, ?_, ?_, fun o ho => ?_⟩
  · exact Collection.workItems.rows_updateWith_of_nil hstate (hnil _ fun _ => rfl)
  · exact Collection.statusVisits.rows_updateWith_of_nil hstate (hnil _ fun _ => rfl)
  · exact Collection.samples.rows_updateWith_of_nil hstate (hnil _ fun _ => rfl)
  · rcases (Collection.overlays.mem_updateWith hstate hout).mp ho with ho | ⟨ho, -⟩
    · obtain ⟨owner, howner, r, hr, ho⟩ := collectRecords_exists_of_mem h Collection.overlays ho
      obtain ⟨overlays, claim, eligible, hrow, hall, -⟩ := unavailabilityRecords_eq_ok hr
      rw [hrow] at ho
      obtain ⟨hmember, -, -, hvalid⟩ := hall o ho
      exact .inr ⟨hmember ▸ howner, hvalid⟩
    · exact .inl ho

/-! ### One rule -/

/-- What one rule does to the working state. -/
inductive RiskStep (context : RiskContext p) (c' : ScrumCollections) : Prop
  | silent (h : c' = context.state.scrum.toScrumCollections)
  | reviews (hkey : context.rule.key = "REVIEW_REJECTION")
      (htrigger : context.rule.trigger = "STATUS_EXITED") (h : ReviewStep context c')
  | cancellations (hkey : context.rule.key = "CANCELLATION") (boundary : ℤ)
      (hboundary : workdayBoundary context.state context.asOf = .ok (some boundary))
      (h : CancellationStep context boundary c')
  | pauses (h : PauseStep context.state.scrum.toScrumCollections c')
  | absences (h : AbsenceStep context c')

theorem withWriteSet_of_empty {working working' : LiveTeamState p} {w : ScrumStateWriteSet p}
    (h : working.withWriteSet w = .ok working') (hw : w.toScrumCollections = {}) :
    working'.scrum.toScrumCollections = working.scrum.toScrumCollections := by
  obtain ⟨-, hscrum⟩ := LiveTeamState.withWriteSet_eq_ok.mp h
  rw [hscrum, hw, updateWith_empty working.scrum.complete.toConsistent]

/-- Applying the handler of a rule is one of the steps, and writes no other collection. -/
theorem riskStep_of_handler {context : RiskContext p} {out : RiskRecords p}
    {handler : RiskContext p → Result (RiskRecords p)} {working' : LiveTeamState p}
    (hhandler : handlerFor context.rule.key = some handler) (hout : handler context = .ok out)
    (hworking : context.state.withWriteSet out.state = .ok working') :
    RiskStep context working'.scrum.toScrumCollections := by
  have hdefault : out = {} → RiskStep context working'.scrum.toScrumCollections := by
    rintro rfl
    exact .silent (withWriteSet_of_empty hworking rfl)
  obtain ⟨hkey, rfl⟩ | ⟨hkey, rfl⟩ | ⟨hkey, rfl⟩ | ⟨hkey, rfl⟩ | ⟨hkey, rfl⟩ :=
    handlerFor_eq_some hhandler
  · unfold longStay at hout
    split_ifs at hout
    · exact hdefault (Except.ok.inj hout).symm
    · refine .silent (withWriteSet_of_empty hworking (ext_rows fun col => ?_))
      rw [col.rows_empty]
      refine collectRecords_rows_eq_nil hout col fun visit _ r hr => ?_
      rw [(longStayRecord_silent hr).state, col.rows_empty]
  · rcases reviewRejection_eq_ok hout with hempty | ⟨htrigger, hcollect⟩
    · exact hdefault hempty
    · exact .reviews hkey htrigger (reviewStep_of_collectRecords hcollect hworking)
  · rcases cancellation_eq_ok hout with hempty | ⟨boundary, hboundary, htrigger, hcollect⟩
    · exact hdefault hempty
    · exact .cancellations hkey boundary hboundary
        (cancellationStep_of_collectRecords htrigger hboundary hcollect hworking)
  · rcases externalDependency_eq_ok hout with hempty | hcollect
    · exact hdefault hempty
    · exact .pauses (pauseStep_of_collectRecords hcollect hworking)
  · rcases memberUnavailability_eq_ok hout with hempty | ⟨boundary, -, -, hcollect⟩
    · exact hdefault hempty
    · exact .absences (absenceStep_of_collectRecords hcollect hworking)

/-! ### The collections that no rule writes -/

/-- The collection is empty in every state that a risk decision can write. -/
def Unwritten {α κ : Type} [DecidableEq κ] (col : Collection α κ) : Prop :=
  ∀ overlays workItems visits samples, col.rows {
    memberAvailabilityOverlays := overlays, workItems, statusVisits := visits
    statusVisitSamples := samples } = []

theorem handler_rows_eq_nil {α κ : Type} [DecidableEq κ] {col : Collection α κ}
    (hcol : Unwritten col) {context : RiskContext p} {out : RiskRecords p}
    {handler : RiskContext p → Result (RiskRecords p)}
    (hhandler : handlerFor context.rule.key = some handler) (hout : handler context = .ok out) :
    col.rows out.state.toScrumCollections = [] := by
  have hdefault : out = {} → col.rows out.state.toScrumCollections = [] := by
    rintro rfl
    exact col.rows_empty
  -- one case for each handler
  obtain ⟨-, rfl⟩ | ⟨-, rfl⟩ | ⟨-, rfl⟩ | ⟨-, rfl⟩ | ⟨-, rfl⟩ := handlerFor_eq_some hhandler
  · unfold longStay at hout
    split_ifs at hout
    · exact hdefault (Except.ok.inj hout).symm
    · refine collectRecords_rows_eq_nil hout col fun visit _ r hr => ?_
      rw [(longStayRecord_silent hr).state, col.rows_empty]
  · rcases reviewRejection_eq_ok hout with hempty | ⟨-, hcollect⟩
    · exact hdefault hempty
    · exact reviewRows_eq_nil hcollect col fun w v s => hcol [] [w] [v] [s]
  · rcases cancellation_eq_ok hout with hempty | ⟨boundary, hboundary, htrigger, hcollect⟩
    · exact hdefault hempty
    · exact cancellationRows_eq_nil htrigger hboundary hcollect col
        fun w v => hcol [] [w] [v] []
  · rcases externalDependency_eq_ok hout with hempty | hcollect
    · exact hdefault hempty
    · refine collectRecords_rows_eq_nil hcollect col fun visit _ r hr => ?_
      obtain ⟨-, -, -, hrow | ⟨delta, -, hrow⟩⟩ := dependencyRecords_eq_ok hr
      · rw [hrow, col.rows_empty]
      · rw [hrow]
        exact hcol [] [] [pausedBy visit delta] []
  · rcases memberUnavailability_eq_ok hout with hempty | ⟨boundary, -, -, hcollect⟩
    · exact hdefault hempty
    · refine collectRecords_rows_eq_nil hcollect col fun owner _ r hr => ?_
      obtain ⟨overlays, claim, eligible, hrow, -⟩ := unavailabilityRecords_eq_ok hr
      rw [hrow]
      exact hcol overlays [] [] []

theorem riskFrame_of_handler {context : RiskContext p} {out : RiskRecords p}
    {handler : RiskContext p → Result (RiskRecords p)} {working' : LiveTeamState p}
    (hhandler : handlerFor context.rule.key = some handler) (hout : handler context = .ok out)
    (hworking : context.state.withWriteSet out.state = .ok working') :
    RiskFrame context.state.scrum.toScrumCollections working'.scrum.toScrumCollections := by
  have hstate := context.state.scrum.complete.toConsistent
  obtain ⟨-, hscrum⟩ := LiveTeamState.withWriteSet_eq_ok.mp hworking
  have hrows : ∀ {α κ : Type} [DecidableEq κ] (col : Collection α κ), Unwritten col →
      col.rows working'.scrum.toScrumCollections =
        col.rows context.state.scrum.toScrumCollections := by
    intro α κ _ col hcol
    rw [hscrum]
    exact col.rows_updateWith_of_nil hstate (handler_rows_eq_nil hcol hhandler hout)
  exact ⟨hrows .memberIdentities fun _ _ _ _ => rfl, hrows .consumption fun _ _ _ _ => rfl,
    hrows .factors fun _ _ _ _ => rfl, hrows .sprints fun _ _ _ _ => rfl,
    hrows .sprintScope fun _ _ _ _ => rfl, hrows .counters fun _ _ _ _ => rfl,
    hrows .evaluations fun _ _ _ _ => rfl⟩

/-- One step of the loop over the rules is a risk step. -/
theorem applyRule_riskStep {asOf : ℤ} {draws : DrawSource} {progress progress' : RiskProgress p}
    {rule : RiskRule} (h : applyRule asOf draws progress rule = .ok progress') :
    progress'.working.aggregate = progress.working.aggregate ∧
      RiskFrame progress.working.scrum.toScrumCollections
        progress'.working.scrum.toScrumCollections ∧
      RiskStep { state := progress.working, asOf, draws, rule }
        progress'.working.scrum.toScrumCollections := by
  rcases applyRule_eq_ok h with rfl | ⟨handler, outcome, hhandler, hout, -, hworking⟩
  · exact ⟨rfl, RiskFrame.refl _, .silent rfl⟩
  · exact ⟨(LiveTeamState.withWriteSet_eq_ok.mp hworking).1,
      riskFrame_of_handler hhandler hout hworking, riskStep_of_handler hhandler hout hworking⟩

/-- The rule for a risk evaluation: what every risk step keeps holds of the last working state. -/
theorem riskSteps_induction {asOf : ℤ} {draws : DrawSource} {progress progress' : RiskProgress p}
    {rules : List RiskRule} {motive : LiveTeamState p → Prop}
    (h : applyRules asOf draws progress rules = .ok progress') (init : motive progress.working)
    (step : ∀ rule ∈ rules, ∀ working working' : LiveTeamState p, motive working →
      working'.aggregate = working.aggregate →
      RiskFrame working.scrum.toScrumCollections working'.scrum.toScrumCollections →
      RiskStep { state := working, asOf, draws, rule } working'.scrum.toScrumCollections →
      motive working') :
    motive progress'.working := by
  refine applyRules_induction h init ?_
  intro rule hrule working handler outcome working' hmotive hhandler hout hworking
  exact step rule hrule working working' hmotive (LiveTeamState.withWriteSet_eq_ok.mp hworking).1
    (riskFrame_of_handler hhandler hout hworking) (riskStep_of_handler hhandler hout hworking)

end JiraSimulator
