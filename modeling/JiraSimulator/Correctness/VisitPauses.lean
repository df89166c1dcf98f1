import JiraSimulator.Correctness.TimePartition

/-!
# The pauses of a tick

A tick extends the pause of a visit in two ways: its risk evaluation lets the visit wait for an
external dependency, and the segments add their time to a visit whose status pauses the service
clock.  Each rule of the evaluation finds the working state that the rules before it have left.

* `evaluateDueRisks_rows`: the rows of the visits after a risk evaluation.
* `Plays.pauses`: the pauses that the segments add.
* `TickRun.pauses`: the rows of the visits after a tick.
-/

namespace JiraSimulator

open Library Library.Outcome ScrumCollections

variable {p : Platform}

/-! ### The rules of an evaluation -/

/-- A rule of a risk evaluation, with the working state that the rules before it leave. -/
structure EvaluatedAfter (state : LiveTeamState p) (asOf : ℤ) (draws : DrawSource)
    (before : List RiskRule) (context : RiskContext p) : Prop where
  asOf_eq : context.asOf = asOf
  draws_eq : context.draws = draws
  rules : ∃ after, state.aggregate.blueprint.risks.rules = before ++ context.rule :: after
  reached : ∃ records, applyRules asOf draws { working := state, records := {} } before =
    .ok { working := context.state, records }

/-- The contexts in which a risk evaluation evaluates its rules. -/
def EvaluatedIn (state : LiveTeamState p) (asOf : ℤ) (draws : DrawSource)
    (context : RiskContext p) : Prop :=
  ∃ before, EvaluatedAfter state asOf draws before context

/-- The rule of a context comes after rules with other keys. -/
theorem EvaluatedAfter.key_ne {state : LiveTeamState p} {asOf : ℤ} {draws : DrawSource}
    {before : List RiskRule} {context : RiskContext p}
    (h : EvaluatedAfter state asOf draws before context) :
    ∀ rule ∈ before, rule.key ≠ context.rule.key := by
  obtain ⟨after, hrules⟩ := h.rules
  have hnodup := state.aggregate.blueprint.ruleKeys_nodup
  rw [hrules, List.map_append, List.nodup_append] at hnodup
  intro rule hrule
  exact hnodup.2.2 _ (List.mem_map_of_mem hrule) _ (List.mem_map_of_mem List.mem_cons_self)

theorem applyRules_append {asOf : ℤ} {draws : DrawSource} {progress middle : RiskProgress p}
    {before after : List RiskRule} (h : applyRules asOf draws progress before = .ok middle) :
    applyRules asOf draws progress (before ++ after) = applyRules asOf draws middle after := by
  unfold applyRules at h ⊢
  rw [List.foldlM_append, h, ok_bind]

/-- The rule for a risk evaluation with its records: what each rule keeps of the progress before it
holds of the progress after the evaluation. -/
theorem progress_induction {state working : LiveTeamState p} {asOf : ℤ} {draws : DrawSource}
    {risks : RiskRecords p} {motive : List RiskRule → RiskProgress p → Prop}
    (hrisks : evaluateDueRisks state asOf draws = .ok risks)
    (hworking : state.withWriteSet risks.state = .ok working)
    (init : motive [] { working := state, records := {} })
    (step : ∀ before rule progress progress',
      EvaluatedAfter state asOf draws before { state := progress.working, asOf, draws, rule } →
      motive before progress → applyRule asOf draws progress rule = .ok progress' →
      motive (before ++ [rule]) progress') :
    motive state.aggregate.blueprint.risks.rules { working, records := risks } := by
  -- the rules are a part already played and a part still to play
  suffices h : ∀ after before (middle last : RiskProgress p),
      state.aggregate.blueprint.risks.rules = before ++ after →
      applyRules asOf draws { working := state, records := {} } before = .ok middle →
      motive before middle → applyRules asOf draws middle after = .ok last →
      motive (before ++ after) last from
    h _ [] _ _ rfl rfl init (evaluateDueRisks_working hrisks hworking)
  intro after
  induction after with
  | nil =>
    intro before middle last _ _ hmiddle hlast
    cases hlast
    rw [List.append_nil]
    exact hmiddle
  | cons rule after ih =>
    intro before middle last hrules hbefore hmiddle hlast
    simp only [applyRules, List.foldlM_cons, bind_eq_ok] at hlast
    obtain ⟨next, hnext, hlast⟩ := hlast
    have hmotive := step before rule middle next
      ⟨rfl, rfl, ⟨after, hrules⟩, middle.records, hbefore⟩ hmiddle hnext
    have hsplit : before ++ rule :: after = (before ++ [rule]) ++ after := by simp
    rw [hsplit]
    refine ih (before ++ [rule]) next last (hrules.trans hsplit) ?_ hmotive hlast
    rw [applyRules_append hbefore]
    unfold applyRules
    rw [List.foldlM_cons, hnext, ok_bind]
    rfl

/-- The rule for a risk evaluation: what each rule keeps, in the working state that it finds, holds
of the state after the evaluation. -/
theorem evaluation_induction {state working : LiveTeamState p} {asOf : ℤ} {draws : DrawSource}
    {risks : RiskRecords p} {motive : List RiskRule → LiveTeamState p → Prop}
    (hrisks : evaluateDueRisks state asOf draws = .ok risks)
    (hworking : state.withWriteSet risks.state = .ok working) (init : motive [] state)
    (step : ∀ before context progress', EvaluatedAfter state asOf draws before context →
      motive before context.state → ∀ records, applyRule asOf draws
        { working := context.state, records } context.rule = .ok progress' →
      motive (before ++ [context.rule]) progress'.working) :
    motive state.aggregate.blueprint.risks.rules working := by
  refine progress_induction (motive := fun before progress => motive before progress.working)
    hrisks hworking init fun before rule progress progress' hcontext hmotive hstep => ?_
  exact step before _ progress' hcontext hmotive progress.records hstep

/-! ### The visits that a rule writes -/

/-- The external dependency rule lets an open visit wait. -/
structure Waits (context : RiskContext p) (visit : StatusVisitState) (delta : ℤ) : Prop
    extends DependencyWait context visit delta where
  key : context.rule.key = "EXTERNAL_DEPENDENCY"
  trigger : context.rule.trigger = "STATUS_ENTERED"
  mem : visit ∈ openVisits context.state

/-- A row of a visit that a rule writes, with its reason. -/
inductive WritesVisit (context : RiskContext p) (row : StatusVisitState) : Prop
  | returned (hkey : context.rule.key = "REVIEW_REJECTION") (work : WorkItemState)
      (decision : ReviewDecision) (sample : StatusVisitSample)
      (h : Returns context work decision row sample)
  | cancelled (hkey : context.rule.key = "CANCELLATION") (boundary : ℤ) (work : WorkItemState)
      (decision : CancellationDecision)
      (hcancels : ItemCancellation context boundary work decision)
      (h : row = cancelledVisit decision.visit boundary)
  | waits (visit : StatusVisitState) (delta : ℤ) (hwaits : Waits context visit delta)
      (h : row = pausedBy visit delta)

theorem handler_writesVisit {context : RiskContext p} {out : RiskRecords p}
    {handler : RiskContext p → Result (RiskRecords p)}
    (hhandler : handlerFor context.rule.key = some handler) (hout : handler context = .ok out)
    {row : StatusVisitState} (hrow : row ∈ out.state.statusVisits) : WritesVisit context row := by
  -- one case for each kind of rule, two of which write no visit
  have hdefault : out = {} → WritesVisit context row := by
    rintro rfl
    exact absurd hrow List.not_mem_nil
  obtain ⟨-, rfl⟩ | ⟨hkey, rfl⟩ | ⟨hkey, rfl⟩ | ⟨hkey, rfl⟩ | ⟨-, rfl⟩ := handlerFor_eq_some hhandler
  · unfold longStay at hout
    split_ifs at hout
    · exact hdefault (Except.ok.inj hout).symm
    · obtain ⟨visit, -, r, hr, hmem⟩ :=
        collectRecords_exists_of_mem hout Collection.statusVisits hrow
      rw [(longStayRecord_silent hr).state] at hmem
      cases hmem
  · rcases reviewRejection_eq_ok hout with hempty | ⟨-, hcollect⟩
    · exact hdefault hempty
    · obtain ⟨work, decision, sample, hreturns⟩ := (mem_reviewRows_statusVisits hcollect).mp hrow
      exact .returned hkey work decision sample hreturns
  · rcases cancellation_eq_ok hout with hempty | ⟨boundary, hboundary, htrigger, hcollect⟩
    · exact hdefault hempty
    · obtain ⟨work, decision, hcancels, rfl⟩ :=
        (mem_cancellationRows_statusVisits htrigger hboundary hcollect).mp hrow
      exact .cancelled hkey boundary work decision hcancels rfl
  · unfold externalDependency at hout
    split_ifs at hout with htrigger
    · exact hdefault (Except.ok.inj hout).symm
    · obtain ⟨visit, hvisit, r, hr, hmem⟩ :=
        collectRecords_exists_of_mem hout Collection.statusVisits hrow
      obtain ⟨-, -, -, hrows | ⟨delta, hwait, hrows⟩⟩ := dependencyRecords_wait hr
      · rw [hrows] at hmem
        cases hmem
      · rw [hrows] at hmem
        exact .waits visit delta ⟨hwait, hkey, not_not.mp htrigger, hvisit⟩
          (List.mem_singleton.mp hmem)
  · rcases memberUnavailability_eq_ok hout with hempty | ⟨boundary, -, -, hcollect⟩
    · exact hdefault hempty
    · obtain ⟨owner, -, r, hr, hmem⟩ :=
        collectRecords_exists_of_mem hcollect Collection.statusVisits hrow
      obtain ⟨overlays, claim, eligible, hrows, -⟩ := unavailabilityRecords_eq_ok hr
      rw [hrows] at hmem
      cases hmem

/-- A row after a rule is one from before it or one that the rule writes. -/
theorem applyRule_writesVisit {asOf : ℤ} {draws : DrawSource} {progress progress' : RiskProgress p}
    {rule : RiskRule} (h : applyRule asOf draws progress rule = .ok progress')
    {row : StatusVisitState} (hrow : row ∈ progress'.working.scrum.statusVisits) :
    row ∈ progress.working.scrum.statusVisits ∨
      WritesVisit { state := progress.working, asOf, draws, rule } row := by
  rcases applyRule_eq_ok h with rfl | ⟨handler, outcome, hhandler, hout, -, hworking⟩
  · exact .inl hrow
  rw [(LiveTeamState.withWriteSet_eq_ok.mp hworking).2] at hrow
  rcases (Collection.statusVisits.mem_updateWith progress.working.scrum.complete.toConsistent
    outcome.state.consistent).mp hrow with hwritten | ⟨hstays, -⟩
  · exact .inr (handler_writesVisit hhandler hout hwritten)
  · exact .inl hstays

/-! ### The rows after an evaluation -/

/-- The row of a visit before the waits of an evaluation: one of the state, or one that a rejected
review enters at the cursor. -/
inductive Begins (state : LiveTeamState p) (visit : StatusVisitState) : Prop
  | kept (h : visit ∈ state.scrum.statusVisits)
  | returned (hnew : visit.id ∉ state.scrum.statusVisits.map (·.id))
      (hopen : visit.lifecycle = .OPEN) (hentered : visit.enteredAt = cursor state)
      (hclosed : visit.closedAt = none) (hpause : visit.pauseMicroseconds = 0)

/-- The row of a visit after the rules of an evaluation. -/
inductive RiskRow (state : LiveTeamState p) (asOf : ℤ) (draws : DrawSource)
    (row : StatusVisitState) : Prop
  | begins (h : Begins state row)
  | waits (visit : StatusVisitState) (delta : ℤ) (context : RiskContext p)
      (hbegins : Begins state visit) (hcontext : EvaluatedIn state asOf draws context)
      (hwaits : Waits context visit delta) (h : row = pausedBy visit delta)
  | cancelled (visit : StatusVisitState) (boundary : ℤ) (work : WorkItemState)
      (decision : CancellationDecision) (context : RiskContext p) (hbegins : Begins state visit)
      (hcontext : EvaluatedIn state asOf draws context) (hkey : context.rule.key = "CANCELLATION")
      (hcancels : ItemCancellation context boundary work decision)
      (hvisit : decision.visit = visit) (h : row = cancelledVisit visit boundary)
  | cancelledWaiting (visit : StatusVisitState) (delta boundary : ℤ) (work : WorkItemState)
      (decision : CancellationDecision) (waiting context : RiskContext p)
      (hbegins : Begins state visit) (hwaiting : EvaluatedIn state asOf draws waiting)
      (hwaits : Waits waiting visit delta) (hcontext : EvaluatedIn state asOf draws context)
      (hkey : context.rule.key = "CANCELLATION")
      (hcancels : ItemCancellation context boundary work decision)
      (hvisit : decision.visit = pausedBy visit delta)
      (h : row = cancelledVisit (pausedBy visit delta) boundary)

/-- A rejected review enters a visit that the evaluation did not find. -/
theorem Returns.begins {state : LiveTeamState p} {context : RiskContext p} {work : WorkItemState}
    {decision : ReviewDecision} {row : StatusVisitState} {sample : StatusVisitSample}
    (h : Returns context work decision row sample)
    (hcounted : OrdinalsCounted state.scrum.toScrumCollections)
    (haggregate : context.state.aggregate = state.aggregate)
    (hcounters : context.state.scrum.semanticCounters = state.scrum.semanticCounters) :
    row.id ∉ state.scrum.statusVisits.map (·.id) ∧ Begins state row := by
  obtain ⟨review, step, counter, hreturn⟩ := h
  obtain ⟨hcounter, hscope⟩ := visitCounter_eq_ok hreturn.counter_eq
  have hnew : row.id ∉ state.scrum.statusVisits.map (·.id) := by
    rw [hreturn.enters.id_eq]
    exact hcounted.not_mem_of_counter state.scrum.complete.toConsistent
      (hcounters ▸ hcounter) hscope
  refine ⟨hnew, .returned hnew hreturn.enters.lifecycle_eq ?_ hreturn.enters.closedAt_eq
    hreturn.enters.pause_eq⟩
  rw [hreturn.enters.enteredAt_eq, cursor, cursor, haggregate]

/-- The working state during an evaluation: only the external dependency rule lets visits wait. -/
structure Evaluating (state : LiveTeamState p) (asOf : ℤ) (draws : DrawSource)
    (before : List RiskRule) (working : LiveTeamState p) : Prop where
  aggregate : working.aggregate = state.aggregate
  counters : working.scrum.semanticCounters = state.scrum.semanticCounters
  rows : ∀ row ∈ working.scrum.statusVisits, RiskRow state asOf draws row
  unpaused : (∀ rule ∈ before, rule.key ≠ "EXTERNAL_DEPENDENCY") →
    ∀ row ∈ openVisits working, Begins state row

section evaluation

variable {state : LiveTeamState p} (hcounted : OrdinalsCounted state.scrum.toScrumCollections)
  {asOf : ℤ} {draws : DrawSource}
include hcounted

theorem Evaluating.step {before : List RiskRule} {context : RiskContext p}
    {records : RiskRecords p} {progress' : RiskProgress p}
    (hcontext : EvaluatedAfter state asOf draws before context)
    (h : Evaluating state asOf draws before context.state)
    (hstep : applyRule asOf draws { working := context.state, records } context.rule =
      .ok progress') :
    Evaluating state asOf draws (before ++ [context.rule]) progress'.working := by
  obtain ⟨hagg, hframe, -⟩ := applyRule_riskStep hstep
  have hin : EvaluatedIn state asOf draws context := ⟨before, hcontext⟩
  have hsame : ({ state := context.state, asOf, draws, rule := context.rule } : RiskContext p) =
      context := by
    rw [← hcontext.asOf_eq, ← hcontext.draws_eq]
  have hwrites : ∀ row ∈ progress'.working.scrum.statusVisits,
      row ∈ context.state.scrum.statusVisits ∨ WritesVisit context row := by
    intro row hrow
    have hwritten := applyRule_writesVisit hstep hrow
    rwa [hsame] at hwritten
  have hreturned : ∀ row work decision sample, Returns context work decision row sample →
      Begins state row := fun _ _ _ _ hreturns =>
    (hreturns.begins hcounted h.aggregate h.counters).2
  refine ⟨hagg.trans h.aggregate, hframe.semanticCounters.trans h.counters, ?_, ?_⟩
  · intro row hrow
    rcases hwrites row hrow with hold | hwritten
    · exact h.rows row hold
    cases hwritten with
    | returned _ work decision sample hreturns =>
      exact .begins (hreturned row work decision sample hreturns)
    | waits visit delta hwaits hrow =>
      -- no rule with this key came before
      have hbegins := h.unpaused (fun rule hrule => hwaits.key ▸ hcontext.key_ne rule hrule)
        visit hwaits.mem
      exact .waits visit delta context hbegins hin hwaits hrow
    | cancelled hkey boundary work decision hcancels hrow =>
      obtain ⟨hmem, -, hopen⟩ := hcancels.visit_mem
      cases h.rows _ hmem with
      | begins hbegins =>
        exact .cancelled _ boundary work decision context hbegins hin hkey hcancels rfl hrow
      | waits visit delta waiting hbegins hwaiting hwaits hvisit =>
        exact .cancelledWaiting visit delta boundary work decision waiting context hbegins hwaiting
          hwaits hin hkey hcancels hvisit (hvisit ▸ hrow)
      | cancelled _ _ _ _ _ _ _ _ _ _ hclosed =>
        rw [hclosed] at hopen
        cases hopen
      | cancelledWaiting _ _ _ _ _ _ _ _ _ _ _ _ _ _ hclosed =>
        rw [hclosed] at hopen
        cases hopen
  · intro hother row hrow
    obtain ⟨hmem, hopen⟩ := mem_openVisits.mp hrow
    rcases hwrites row hmem with hold | hwritten
    · exact h.unpaused (fun rule hrule => hother rule (List.mem_append_left _ hrule)) row
        (mem_openVisits.mpr ⟨hold, hopen⟩)
    cases hwritten with
    | returned _ work decision sample hreturns => exact hreturned row work decision sample hreturns
    | cancelled _ _ _ _ _ hrow =>
      rw [hrow] at hopen
      cases hopen
    | waits visit delta hwaits hrow =>
      exact absurd hwaits.key
        (hother context.rule (List.mem_append_right _ (List.mem_singleton_self _)))

/-- The rows of the visits after a risk evaluation. -/
theorem evaluateDueRisks_rows {risks : RiskRecords p} {working : LiveTeamState p}
    (hrisks : evaluateDueRisks state asOf draws = .ok risks)
    (hworking : state.withWriteSet risks.state = .ok working) :
    ∀ row ∈ working.scrum.statusVisits, RiskRow state asOf draws row := by
  refine Evaluating.rows (evaluation_induction hrisks hworking (motive := Evaluating state asOf draws)
    ?_ ?_)
  · exact ⟨rfl, rfl, fun row hrow => .begins (.kept hrow),
      fun _ row hrow => .kept (mem_openVisits.mp hrow).1⟩
  · intro before context progress' hcontext h records hstep
    exact h.step hcounted hcontext hstep

end evaluation

/-! ### The pauses of the segments -/

/-- The row of a visit after some time: its pause has grown by this time if its status pauses the
service clock, and not at all otherwise. -/
structure PausedOver (state : LiveTeamState p) (time : ℤ) (visit updated : StatusVisitState) :
    Prop extends SameVisit visit updated where
  pausing : intrinsicallyPaused state visit = .ok true →
    updated.pauseMicroseconds = visit.pauseMicroseconds + time
  running : intrinsicallyPaused state visit ≠ .ok true →
    updated.pauseMicroseconds = visit.pauseMicroseconds

theorem PausedOver.refl {state : LiveTeamState p} (visit : StatusVisitState) :
    PausedOver state 0 visit visit :=
  ⟨.refl visit, fun _ => (add_zero _).symm, fun _ => rfl⟩

/-- Times that follow one another add up. -/
theorem PausedOver.trans {state : LiveTeamState p} {time time' : ℤ} {a b c : StatusVisitState}
    (h : PausedOver state time a b) (h' : PausedOver state time' b c) :
    PausedOver state (time + time') a c where
  toSameVisit := h.toSameVisit.trans h'.toSameVisit
  pausing hclock := by
    have hfirst := h.pausing hclock
    have hsecond := h'.pausing ((intrinsicallyPaused_congr h.toSameVisit).trans hclock)
    omega
  running hclock := by
    have hfirst := h.running hclock
    have hsecond := h'.running
      (fun hpaused => hclock ((intrinsicallyPaused_congr h.toSameVisit).symm.trans hpaused))
    omega

theorem advanceVisit_pausedOver {state : LiveTeamState p} {segment : BusinessSegment}
    {starting : Consumption} {advance advance' : SegmentAdvance} {assignment : AssignedVisit}
    (h : advanceVisit state segment starting advance assignment = .ok advance') :
    ∃ updated, advance'.visits = advance.visits ++ [updated] ∧
      PausedOver state segment.microseconds assignment.visit updated := by
  obtain ⟨updated, causes, -, hvisits, -, hadvance⟩ := advanceVisit_cases h
  refine ⟨updated, hvisits, ?_⟩
  generalize advance'.consumption = after at hadvance
  have hrunning : intrinsicallyPaused state assignment.visit = .ok false →
      intrinsicallyPaused state assignment.visit ≠ .ok true := by
    intro hclock hpaused
    rw [hclock] at hpaused
    cases hpaused
  cases hadvance with
  | pauses hclock =>
    exact ⟨⟨rfl, rfl, rfl, rfl, rfl, rfl, rfl, rfl, rfl, rfl, rfl⟩, fun _ => rfl,
      fun hruns => absurd hclock hruns⟩
  | waits queue causes hclock =>
    exact ⟨⟨rfl, rfl, rfl, rfl, rfl, rfl, rfl, rfl, rfl, rfl, rfl⟩,
      fun hpaused => absurd hpaused (hrunning hclock), fun _ => rfl⟩
  | works identity capacity credited causes hclock =>
    exact ⟨⟨rfl, rfl, rfl, rfl, rfl, rfl, rfl, rfl, rfl, rfl, rfl⟩,
      fun hpaused => absurd hpaused (hrunning hclock), fun _ => rfl⟩

/-- The loop over the visits of a segment. -/
theorem advanceVisits_pausedOver {state : LiveTeamState p} {segment : BusinessSegment}
    {starting : Consumption} {assignments : List AssignedVisit} {advance advance' : SegmentAdvance}
    (h : assignments.foldlM (advanceVisit state segment starting) advance = .ok advance') :
    ∃ updated, advance'.visits = advance.visits ++ updated ∧
      List.Forall₂ (fun assignment updated =>
        PausedOver state segment.microseconds assignment.visit updated) assignments updated := by
  induction assignments generalizing advance with
  | nil =>
    rw [List.foldlM_nil, pure_eq_ok] at h
    subst h
    exact ⟨[], by simp, .nil⟩
  | cons assignment assignments ih =>
    simp only [List.foldlM_cons, bind_eq_ok] at h
    obtain ⟨next, hnext, hrest⟩ := h
    obtain ⟨updated, hvisits, hpaused⟩ := advanceVisit_pausedOver hnext
    obtain ⟨rest, hrestVisits, hall⟩ := ih hrest
    refine ⟨updated :: rest, ?_, .cons hpaused hall⟩
    rw [hrestVisits, hvisits, List.append_assoc, List.singleton_append]

/-- A visit after some time: a blocked one stays as it is, and the pause of another one follows its
status. -/
def PausedFrom (state : LiveTeamState p) (blocked : List Uuid) (time : ℤ)
    (visits : List StatusVisitState) (updated : StatusVisitState) : Prop :=
  (updated ∈ visits ∧ updated.id ∈ blocked) ∨
    ∃ visit ∈ visits, visit.id ∉ blocked ∧ PausedOver state time visit updated

theorem advanceSegment_pausedFrom {state : LiveTeamState p} {visits : List StatusVisitState}
    {consumption : Consumption} {segment : BusinessSegment} {blocked : List Uuid}
    {advance : SegmentAdvance}
    (h : advanceSegment state visits consumption segment blocked = .ok advance) :
    ∀ updated ∈ advance.visits,
      PausedFrom state blocked segment.microseconds visits updated := by
  simp only [advanceSegment, bind_eq_ok] at h
  obtain ⟨ordered, hordered, assignments, hassignments, hadvance⟩ := h
  have hperm := rankedVisits_perm hordered
  have hassigned := assignOwners_forall₂ hassignments
  obtain ⟨updated, hvisits, hall⟩ := advanceVisits_pausedOver hadvance
  intro visit' hvisit'
  rw [hvisits, List.mem_append] at hvisit'
  rcases hvisit' with hblocked | hmoved
  · obtain ⟨hmem, hid⟩ := List.mem_filter.mp hblocked
    exact .inl ⟨hmem, of_decide_eq_true hid⟩
  · obtain ⟨assignment, hassignment, hpaused⟩ := forall₂_exists_left hall hmoved
    obtain ⟨visit, hvisit, hassign⟩ := forall₂_exists_left hassigned hassignment
    obtain ⟨hmem, hid⟩ := List.mem_filter.mp (hperm.mem_iff.mp hvisit)
    refine .inr ⟨visit, hmem, of_decide_eq_true hid, ?_⟩
    -- an assignment changes the owner only
    rw [hassign.visit_eq] at hpaused
    exact ⟨⟨hpaused.id, hpaused.teamId, hpaused.runId, hpaused.workItemId, hpaused.ordinal,
      hpaused.lifecycle, hpaused.statusKey, hpaused.activityKey, hpaused.enteredAt,
      hpaused.closedAt, hpaused.required⟩, hpaused.pausing, hpaused.running⟩

/-- After a run over segments a visit is blocked and as it was, or its pause has followed its status
over the time of the segments. -/
theorem Plays.pauses {state : LiveTeamState p} {blocked : List Uuid}
    {visits visits' : List StatusVisitState} {consumption consumption' : Consumption}
    {played : List (BusinessSegment × List StatusVisitState × Consumption × SegmentAdvance)}
    (h : Plays state blocked visits consumption played visits' consumption') :
    ∀ updated ∈ visits', PausedFrom state blocked (playedTime played) visits updated := by
  induction h with
  | done visits consumption =>
    intro updated hupdated
    by_cases hblocked : updated.id ∈ blocked
    · exact .inl ⟨hupdated, hblocked⟩
    · exact .inr ⟨updated, hupdated, hblocked, .refl updated⟩
  | @play visits visits' consumption consumption' segment advance played hadvance _ ih =>
    have hpaused := advanceSegment_pausedFrom hadvance
    have htime : playedTime ((segment, visits, consumption, advance) :: played) =
        segment.microseconds + playedTime played := by
      simp only [playedTime, segmentsTime, List.map_cons, Intervals.total_cons,
        BusinessSegment.microseconds]
    intro updated hupdated
    rw [htime]
    rcases ih updated hupdated with ⟨hmem, hblocked⟩ | ⟨middle, hmiddle, hfree, hrest⟩
    · rcases hpaused updated hmem with hstays | ⟨visit, -, hfree, hclock⟩
      · exact .inl hstays
      · exact absurd (hclock.id ▸ hblocked) hfree
    · rcases hpaused middle hmiddle with ⟨-, hblocked⟩ | ⟨visit, hvisit, hfree', hclock⟩
      · exact absurd hblocked hfree
      · exact .inr ⟨visit, hvisit, hfree', hclock.trans hrest⟩

/-! ### The rows after a tick -/

/-- The row of a visit after a tick: one that its risks closed or had found closed, one that its
segments played and perhaps completed, or one that is entered at its end. -/
inductive PauseRow (state : LiveTeamState p) (advance : RiskAdvance p) (played : ℤ)
    (row : StatusVisitState) : Prop
  | closed (h : row ∈ advance.state.scrum.statusVisits) (hclosed : row.lifecycle = .CLOSED)
  | progresses (x : StatusVisitState) (hx : PausedFrom advance.state
      (riskBlockedVisits state advance.risks) played (openVisits advance.state) x)
      (h : row = x ∨ row = closedVisit x advance.result.endsAt)
  | enters (hnew : row.id ∉ state.scrum.statusVisits.map (·.id))
      (hopen : row.lifecycle = .OPEN) (hentered : row.enteredAt = advance.result.endsAt)
      (hclosed : row.closedAt = none) (hpause : row.pauseMicroseconds = 0)

/-- The rows of the visits after a tick. -/
theorem TickRun.pauses {state : LiveTeamState p} {draws : DrawSource} {advance : RiskAdvance p}
    {outcome : SegmentsOutcome} {finish : StatusVisitState → FinishedVisit} {c' : ScrumCollections}
    (h : TickRun state draws advance outcome finish) (hafter : AfterTick advance c')
    (hcounted : OrdinalsCounted state.scrum.toScrumCollections) :
    ∀ row ∈ c'.statusVisits, PauseRow state advance (playedTime outcome.played) row := by
  intro row hrow
  have hpauses := h.plays.pauses
  cases h.tickRow hafter hcounted hrow with
  | closed hmem hclosed => exact .closed hmem hclosed
  | progresses x hx hrow => exact .progresses x (hpauses x hx) (hrow.imp id And.left)
  | enters hnew work step ordinal sample henters =>
    exact .enters hnew henters.lifecycle_eq henters.enteredAt_eq henters.closedAt_eq henters.pause_eq

end JiraSimulator
