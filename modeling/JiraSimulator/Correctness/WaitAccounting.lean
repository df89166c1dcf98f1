import JiraSimulator.Correctness.DependencyWaits
import JiraSimulator.Correctness.DowntimeEvidence

/-!
# The waits of a run

A visit whose status does not pause the service clock is paused by external dependencies only.
Every wait is recorded when it is committed, so the waits that the ledger holds for a visit add up
to its pause, whatever else the run commits in between.

* `accountedWaits_of_reachable`: the waits and the starts of every visit of a reachable store.
* `WaitingTick.pause_eq`: the pause that a tick adds to a visit that waits already.
-/

namespace JiraSimulator

open Library Library.Outcome Library.Transition ScrumCollections

variable {p : Platform}

/-! ### The rows after a tick -/

/-- The row of a visit after a tick: a row of its risk evaluation with the same pause, when its
status does not pause the service clock, or one that the tick enters. -/
inductive WaitRow (working : LiveTeamState p) (row : StatusVisitState) : Prop
  | kept (found : StatusVisitState) (hfound : found ∈ working.scrum.statusVisits)
      (hid : row.id = found.id) (hstatus : row.statusKey = found.statusKey)
      (hopen : row.lifecycle = .OPEN → found.lifecycle = .OPEN)
      (hpause : intrinsicallyPaused working found ≠ .ok true →
        row.pauseMicroseconds = found.pauseMicroseconds)
  | enters (hnew : row.id ∉ working.scrum.statusVisits.map (·.id))
      (hpause : row.pauseMicroseconds = 0)

section tick

variable {state : LiveTeamState p} {draws : DrawSource} {advance : RiskAdvance p}
  {outcome : SegmentsOutcome} {finish : StatusVisitState → FinishedVisit} {c' : ScrumCollections}
  (h : TickRun state draws advance outcome finish) (hafter : AfterTick advance c')
  (hcounted : OrdinalsCounted state.scrum.toScrumCollections)

include h

/-- A visit after the segments has the pause that the risk evaluation has left. -/
theorem TickRun.found_of_played {x : StatusVisitState} (hx : x ∈ outcome.visits) :
    ∃ found ∈ openVisits advance.state, SameVisit found x ∧
      (intrinsicallyPaused advance.state found ≠ .ok true →
        x.pauseMicroseconds = found.pauseMicroseconds) := by
  rcases h.plays.pauses x hx with ⟨hmem, -⟩ | ⟨found, hfound, -, hpaused⟩
  · exact ⟨x, hmem, .refl x, fun _ => rfl⟩
  · exact ⟨found, hfound, hpaused.toSameVisit, hpaused.running⟩

include hafter hcounted

/-- The visit that a completed one leads to is not one of the risk evaluation. -/
theorem TickRun.entered_new {x : StatusVisitState} (hx : x ∈ outcome.visits)
    {work : WorkItemState} {later : List WorkflowRouteStep} {step : WorkflowRouteStep}
    {counter : SemanticCounter} {next : StatusVisitState} {sample : StatusVisitSample}
    (completion : Completion advance.state advance.result.endsAt x work later)
    (hcounter : visitCounter advance.state work.id = .ok counter)
    (enters : EntersVisit p advance.state.aggregate.blueprint draws
      (movedWork work step.statusKey advance.result.endsAt) step counter.nextValue none
      advance.result.endsAt next sample)
    (hclosed : closedVisit x advance.result.endsAt ∈ advance.result.visits)
    (hnext : next ∈ advance.result.visits) :
    next.id ∉ advance.state.scrum.statusVisits.map (·.id) := by
  have hwaits := evaluateDueRisks_waits hcounted h.risks h.working
  have hc := advance.state.scrum.complete
  obtain ⟨hmem, hscope⟩ := visitCounter_eq_ok hcounter
  have hcounters : advance.state.scrum.semanticCounters = state.scrum.semanticCounters :=
    hwaits.counters
  have hnew : next.id ∉ state.scrum.statusVisits.map (·.id) := by
    rw [enters.id_eq]
    exact hcounted.not_mem_of_counter state.scrum.complete.toConsistent (hcounters ▸ hmem) hscope
  intro hknown
  obtain ⟨row, hrow, hid⟩ := List.mem_map.mp hknown
  obtain ⟨found, hfound, hsame, -⟩ := h.found_of_played hx
  obtain ⟨hfoundMem, hfoundOpen⟩ := mem_openVisits.mp hfound
  have hitem : found.workItemId = row.workItemId := by
    have hnextItem : row.workItemId = next.workItemId :=
      (hc.visit_valid hrow).workItemId_eq enters.visitValid hid
    rw [hnextItem, enters.workItemId_eq, ← hsame.workItemId]
    exact completion.work_id.symm
  by_cases hopen : row.lifecycle = .OPEN
  · -- the open visit of the item is the completed one
    have hrowFound : row = found :=
      hc.openVisit_unique hrow hfoundMem hopen hfoundOpen hitem.symm
    have hclosedId : (closedVisit x advance.result.endsAt).id = next.id := by
      rw [← hid, hrowFound]
      exact hsame.id
    have heq := Collection.statusVisits.eq_of_key_eq hafter.progress hclosed hnext hclosedId
    have hlifecycle := congrArg StatusVisitState.lifecycle heq
    rw [enters.lifecycle_eq] at hlifecycle
    cases hlifecycle
  · exact hwaits.closed row hrow (hid ▸ hnew) hopen found hfound hitem

theorem TickRun.waitRow {row : StatusVisitState} (hrow : row ∈ c'.statusVisits) :
    WaitRow advance.state row := by
  have hplayed : ∀ x ∈ outcome.visits, row = x ∨ row = closedVisit x advance.result.endsAt →
      WaitRow advance.state row := by
    intro x hx hrow
    obtain ⟨found, hfound, hsame, hpause⟩ := h.found_of_played hx
    obtain ⟨hmem, hopen⟩ := mem_openVisits.mp hfound
    rcases hrow with rfl | rfl
    · exact .kept found hmem hsame.id hsame.statusKey (fun _ => hopen) hpause
    · exact .kept found hmem hsame.id hsame.statusKey (fun _ => hopen) hpause
  rcases (hafter.visits row).mp hrow with hwritten | ⟨hstays, -⟩
  · obtain ⟨x, hx, hmem⟩ := h.mem_visits.mp hwritten
    cases h.finishes x hx with
    | kept _ heq =>
      rw [heq] at hmem
      cases hmem
    | advanced _ _ _ _ heq =>
      rw [heq, List.mem_singleton] at hmem
      exact hplayed x hx (.inl hmem)
    | done _ _ _ _ _ _ _ heq =>
      rw [heq, List.mem_singleton] at hmem
      exact hplayed x hx (.inr hmem)
    | moved work later step counter next sample completion _ hcounter _ enters _ heq =>
      have hfinished : ∀ v ∈ [closedVisit x advance.result.endsAt, next],
          v ∈ advance.result.visits := fun v hv => h.mem_visits.mpr ⟨x, hx, by rw [heq]; exact hv⟩
      rw [heq] at hmem
      rcases List.mem_pair.mp hmem with hclosed | rfl
      · exact hplayed x hx (.inr hclosed)
      · refine .enters ?_ enters.pause_eq
        exact h.entered_new hafter hcounted hx completion hcounter enters
          (hfinished _ List.mem_cons_self) hwritten
  · exact .kept row hstays rfl rfl id fun _ => rfl

end tick

/-! ### The ledgers after a commit -/

/-- The draft records no wait, of whatever visit. -/
def GroundTruthRecordDraft.WaitFree (draft : GroundTruthRecordDraft) : Prop :=
  ∀ visit, waitRecordOf visit draft = none

theorem waitFree_of_payload {draft : GroundTruthRecordDraft}
    (h : ∀ record, draft.payload ≠ .riskEvaluation record) : draft.WaitFree := by
  intro visit
  unfold waitRecordOf
  split
  · rename_i record _ hpayload
    exact absurd hpayload (h record)
  · rfl

theorem waitRecords_of_waitFree {drafts : List GroundTruthRecordDraft}
    (h : ∀ draft ∈ drafts, draft.WaitFree) (visit : Uuid) : waitRecords drafts visit = [] :=
  List.filterMap_eq_nil_iff.mpr fun draft hdraft => h draft hdraft visit

theorem startedEvents_of_other {drafts : List ActivityEventDraft}
    (h : ∀ draft ∈ drafts, draft.eventType ≠ .EXTERNAL_DEPENDENCY_STARTED) (visit : Uuid) :
    startedEvents drafts visit = [] := by
  refine List.filter_eq_nil_iff.mpr fun draft hdraft hstarted => ?_
  rw [Bool.and_eq_true, decide_eq_true_eq] at hstarted
  exact h draft hdraft hstarted.1

theorem startedEvents_of_appendDrafts {ledger ledger' drafts : List ActivityEventDraft}
    (h : appendDrafts (·.semanticKey) ledger drafts = .ok ledger') (visit : Uuid) :
    ∃ added, startedEvents ledger' visit = startedEvents ledger visit ++ added ∧
      added.Sublist (startedEvents drafts visit) := by
  obtain ⟨added, rfl, hsublist, -⟩ := appendDrafts_eq_ok h
  exact ⟨startedEvents added visit, startedEvents_append _ _ _, hsublist.filter _⟩

/-- A sprint boundary neither records waits nor starts them. -/
theorem BoundaryStep.no_waits {state : LiveTeamState p} {boundary : ℤ}
    {transition : SprintTransition p} (h : BoundaryStep state boundary transition) :
    (∀ draft ∈ transition.groundTruth, draft.WaitFree) ∧
      ∀ draft ∈ transition.activity, draft.eventType ≠ .EXTERNAL_DEPENDENCY_STARTED := by
  cases h with
  | quiet h =>
    subst h
    exact ⟨by simp [emptyTransition], by simp [emptyTransition]⟩
  | activates =>
    rename_i h
    subst h
    refine ⟨List.forall_mem_singleton.mpr fun _ => rfl, List.forall_mem_singleton.mpr ?_⟩
    show EventType.SPRINT_STARTED ≠ _
    decide
  | rolls =>
    rename_i h
    subst h
    refine ⟨List.forall_mem_singleton.mpr fun _ => rfl, List.forall_mem_singleton.mpr ?_⟩
    show EventType.SPRINT_ROLLED_OVER ≠ _
    decide

/-- The waits that a tick records are those of its risk evaluation. -/
theorem tickSlice_waits {request : TickRequest} {advance : RiskAdvance p} {slice : TickSliceCommit}
    (h : tickSlice request advance = .ok slice) :
    (∀ draft ∈ slice.groundTruth, draft.WaitFree ∨ draft ∈ advance.risks.groundTruth) ∧
    ∀ visit, waitRecords slice.groundTruth visit = waitRecords advance.risks.groundTruth visit ∧
      startedEvents slice.activity visit = startedEvents advance.risks.activity visit := by
  obtain ⟨truths, htruths, hall⟩ := tickSlice_groundTruth h
  obtain ⟨updates, hupdates, htype⟩ := tickSlice_activity h
  have hfree : ∀ draft ∈ truths.flatten, draft.WaitFree := by
    intro draft hdraft
    obtain ⟨truth, htruth, hmem⟩ := List.mem_flatten.mp hdraft
    obtain ⟨row, -, hrow⟩ := forall₂_exists_left hall htruth
    by_cases hskip : 0 < row.ordinal ∧ row.lifecycle = .OPEN
    · rw [hrow.skipped hskip] at hmem
      cases hmem
    · obtain ⟨-, -, -, draft', record, rfl, -, hpayload, -⟩ := hrow.recorded hskip
      refine waitFree_of_payload fun other hother => ?_
      rw [List.mem_singleton.mp hmem, hpayload] at hother
      cases hother
  refine ⟨fun draft hdraft => ?_, fun visit => ⟨?_, ?_⟩⟩
  · rw [htruths, List.mem_append] at hdraft
    exact hdraft.imp (hfree draft) id
  · rw [htruths, waitRecords_append, waitRecords_of_waitFree hfree, List.nil_append]
  · rw [hupdates, startedEvents_append, startedEvents_of_other ?_, List.nil_append]
    intro draft hdraft hstarted
    rw [htype draft hdraft] at hstarted
    cases hstarted

/-- A wait that a risk evaluation records carries the version of its state. -/
theorem evaluateDueRisks_version {state : LiveTeamState p} {asOf : ℤ} {draws : DrawSource}
    {risks : RiskRecords p} (h : evaluateDueRisks state asOf draws = .ok risks)
    {draft : GroundTruthRecordDraft} (hdraft : draft ∈ risks.groundTruth) :
    ∃ team run rule entity occurredAt, draft.semanticKey =
      .risk team run state.aggregate.runtime.version rule entity occurredAt := by
  obtain ⟨before, rule, after, reached, evidence, hrules, hreached, hdecides, rfl⟩ :=
    evaluateDueRisks_groundTruth h hdraft
  have hagg : reached.working.aggregate = state.aggregate :=
    ((workingState_init state).applyRules hreached).1
  refine ⟨state.aggregate.runtime.teamId, state.aggregate.runtime.runId, evidence.rule.key,
    evidence.entityId, evidence.occurredAt, ?_⟩
  rw [decisionTruth, riskKey, hagg]

/-! ### Accounted waits -/

/-- The waits of a visit in the ledgers and in its row. -/
structure WaitsAccounted (store : TeamStore p) (visit : StatusVisitState) : Prop where
  once : (startedEvents store.activity visit.id).length ≤ 1
  total : waitTotal store.groundTruth visit.id = visit.pauseMicroseconds
  started : startedEvents store.activity visit.id ≠ [] → visit.pauseMicroseconds ≠ 0
  fits : visit.pauseMicroseconds ≠ 0 → ∃ rule ∈ store.aggregate.blueprint.risks.rules,
    DependencyRule rule ∧ ∃ wait, totalWait rule = .ok wait ∧ visit.pauseMicroseconds ≤ wait

/-- The waits of the visits whose status does not pause the service clock are accounted, the ledgers
know no other visits, and the recorded waits are older than the runtime. -/
structure AccountedWaits (store : TeamStore p) : Prop where
  visits : ∀ visit ∈ store.scrum.statusVisits, intrinsicallyPaused store.state visit = .ok false →
    WaitsAccounted store visit
  known : ∀ id, id ∉ store.scrum.statusVisits.map (·.id) →
    waitRecords store.groundTruth id = [] ∧ startedEvents store.activity id = []
  dated : ∀ draft ∈ store.groundTruth, ∀ visit wait, waitRecordOf visit draft = some wait →
    ∃ team run version rule entity occurredAt,
      draft.semanticKey = .risk team run version rule entity occurredAt ∧
      version < store.aggregate.runtime.version

theorem waitsAccounted_of_none {store : TeamStore p} {visit : StatusVisitState}
    (hpause : visit.pauseMicroseconds = 0)
    (hnone : waitRecords store.groundTruth visit.id = [] ∧
      startedEvents store.activity visit.id = []) : WaitsAccounted store visit where
  once := by
    rw [hnone.2]
    exact Nat.zero_le _
  total := by rw [waitTotal_of_none hnone.1, hpause]
  started h := absurd hnone.2 h
  fits h := absurd hpause h

theorem waitWithin_nonneg {wait pause duration : ℤ} (h : 0 ≤ duration) :
    0 ≤ waitWithin wait pause duration := by
  have hrounded := roundedMicroseconds_nonneg h
  unfold waitWithin
  omega

section commit

variable {store store' : TeamStore p} {command : AuthoritativeTickSliceCommit p}

theorem intrinsicallyPaused_of_commit (h : Committed store command store')
    (visit : StatusVisitState) :
    intrinsicallyPaused store'.state visit = intrinsicallyPaused store.state visit := by
  simp only [intrinsicallyPaused, TeamStore.state, h.blueprint_eq]

theorem WaitsAccounted.of_commit {visit : StatusVisitState} (h : WaitsAccounted store visit)
    (hcommitted : Committed store command store')
    (hwaits : waitRecords store'.groundTruth visit.id = waitRecords store.groundTruth visit.id)
    (hstarts : startedEvents store'.activity visit.id = startedEvents store.activity visit.id) :
    WaitsAccounted store' visit where
  once := hstarts ▸ h.once
  total := by
    rw [waitTotal, hwaits]
    exact h.total
  started := hstarts ▸ h.started
  fits hpause := by
    rw [hcommitted.blueprint_eq]
    exact h.fits hpause

/-- The ledger of a commit stays dated when its waits carry the version before it. -/
theorem AccountedWaits.dated_of_commit (h : AccountedWaits store)
    (hcommitted : Committed store command store')
    (hversion : ∀ draft ∈ command.liveSlice.groundTruth, ∀ visit wait,
      waitRecordOf visit draft = some wait → ∃ team run rule entity occurredAt,
        draft.semanticKey =
          .risk team run store.aggregate.runtime.version rule entity occurredAt) :
    ∀ draft ∈ store'.groundTruth, ∀ visit wait, waitRecordOf visit draft = some wait →
      ∃ team run version rule entity occurredAt,
        draft.semanticKey = .risk team run version rule entity occurredAt ∧
        version < store'.aggregate.runtime.version := by
  intro draft hdraft visit wait hwait
  have hnext := hcommitted.runtime_eq.2.2.1
  obtain ⟨added, hadded, hsublist, -⟩ := appendDrafts_eq_ok hcommitted.groundTruth
  rw [hadded, List.mem_append] at hdraft
  rcases hdraft with hold | hnew
  · obtain ⟨team, run, version, rule, entity, occurredAt, hkey, hlt⟩ :=
      h.dated draft hold visit wait hwait
    exact ⟨team, run, version, rule, entity, occurredAt, hkey, by omega⟩
  · obtain ⟨team, run, rule, entity, occurredAt, hkey⟩ :=
      hversion draft (hsublist.subset hnew) visit wait hwait
    exact ⟨team, run, _, rule, entity, occurredAt, hkey, by omega⟩

/-- A commit without waits. -/
theorem AccountedWaits.quiet (h : AccountedWaits store)
    (hcommitted : Committed store command store')
    (hfree : ∀ draft ∈ command.liveSlice.groundTruth, draft.WaitFree)
    (hother : ∀ draft ∈ command.liveSlice.activity,
      draft.eventType ≠ .EXTERNAL_DEPENDENCY_STARTED)
    (hrows : ∀ visit ∈ store'.scrum.statusVisits, visit ∈ store.scrum.statusVisits ∨
      (visit.id ∉ store.scrum.statusVisits.map (·.id) ∧ visit.pauseMicroseconds = 0)) :
    AccountedWaits store' := by
  have hwaits : ∀ id, waitRecords store'.groundTruth id = waitRecords store.groundTruth id := by
    intro id
    obtain ⟨added, hadded, hsublist, -⟩ := appendDrafts_eq_ok hcommitted.groundTruth
    rw [hadded, waitRecords_append,
      waitRecords_of_waitFree fun draft hdraft => hfree draft (hsublist.subset hdraft),
      List.append_nil]
  have hstarts : ∀ id, startedEvents store'.activity id = startedEvents store.activity id := by
    intro id
    obtain ⟨added, hadded, hsublist⟩ := startedEvents_of_appendDrafts hcommitted.activity id
    rw [startedEvents_of_other hother, List.sublist_nil] at hsublist
    rw [hadded, hsublist, List.append_nil]
  refine ⟨fun visit hvisit hruns => ?_, fun id hid => ?_, h.dated_of_commit hcommitted ?_⟩
  · rw [intrinsicallyPaused_of_commit hcommitted] at hruns
    rcases hrows visit hvisit with hold | ⟨hnew, hpause⟩
    · exact (h.visits visit hold hruns).of_commit hcommitted (hwaits _) (hstarts _)
    · refine waitsAccounted_of_none hpause ?_
      rw [hwaits, hstarts]
      exact h.known visit.id hnew
  · rw [hwaits, hstarts]
    refine h.known id fun hmem => hid ?_
    obtain ⟨visit, hvisit, rfl⟩ := List.mem_map.mp hmem
    obtain ⟨visit', hvisit', hsame⟩ :=
      hcommitted.mem_keys Collection.statusVisits (fun _ _ _ => rfl) hvisit
    exact List.mem_map.mpr ⟨visit', hvisit', hsame⟩
  · intro draft hdraft visit wait hwait
    rw [hfree draft hdraft visit] at hwait
    cases hwait

end commit

/-! ### Ticks -/

/-- A visit that the evaluation has found or a rejected review has entered. -/
theorem AccountedWaits.begins {store : TeamStore p} (h : AccountedWaits store)
    {visit : StatusVisitState} (hbegins : Begins store.state visit)
    (hruns : intrinsicallyPaused store.state visit = .ok false) : WaitsAccounted store visit := by
  cases hbegins with
  | kept hmem => exact h.visits visit hmem hruns
  | returned hnew _ _ _ hpause => exact waitsAccounted_of_none hpause (h.known visit.id hnew)

section tick

variable {store store' : TeamStore p} {request : TickRequest} {draws : DrawSource}
  {advance : RiskAdvance p} {outcome : SegmentsOutcome}
  {finish : StatusVisitState → FinishedVisit} {command : AuthoritativeTickSliceCommit p}
  (hrun : TickRun store.state draws advance outcome finish)
  (hslice : tickSlice request advance = .ok command.liveSlice)

include hrun hslice

/-- A wait that a tick records carries the version of the runtime before it. -/
theorem tick_waitVersion : ∀ draft ∈ command.liveSlice.groundTruth, ∀ visit wait,
    waitRecordOf visit draft = some wait → ∃ team run rule entity occurredAt,
      draft.semanticKey = .risk team run store.aggregate.runtime.version rule entity occurredAt := by
  intro draft hdraft visit wait hwait
  rcases (tickSlice_waits hslice).1 draft hdraft with hfree | hrisk
  · rw [hfree visit] at hwait
    cases hwait
  · exact evaluateDueRisks_version hrun.risks hrisk

variable (hcounted : OrdinalsCounted store.scrum.toScrumCollections) (h : AccountedWaits store)
  (hcommitted : Committed store command store')

include hcounted h hcommitted

/-- The waits in the ledger after a tick. -/
theorem AccountedWaits.waitRecords_of_tick (id : Uuid) :
    waitRecords store'.groundTruth id =
      waitRecords store.groundTruth id ++ waitRecords advance.risks.groundTruth id := by
  have hwaits := evaluateDueRisks_waits hcounted hrun.risks hrun.working
  obtain ⟨hrecords, -⟩ := (tickSlice_waits hslice).2 id
  have happended : waitRecords store'.groundTruth id =
      waitRecords store.groundTruth id ++ waitRecords command.liveSlice.groundTruth id := by
    refine filterMap_of_appendDrafts hcommitted.groundTruth ?_ ?_
    · -- a recorded wait is older than the runtime, a new one is not
      intro draft hdraft wait hwait hmem
      obtain ⟨team, run, version, rule, entity, occurredAt, hkey, hlt⟩ :=
        h.dated draft hmem id wait hwait
      obtain ⟨team', run', rule', entity', occurredAt', hkey'⟩ :=
        tick_waitVersion hrun hslice draft hdraft id wait hwait
      rw [hkey, SemanticKey.risk.injEq] at hkey'
      omega
    · show (waitRecords command.liveSlice.groundTruth id).length ≤ 1
      rw [hrecords]
      exact (hwaits.one id).1
  rw [happended, hrecords]

/-- A visit that the risk evaluation leaves with the waits that it records. -/
theorem AccountedWaits.visit_of_tick {visit origin found : StatusVisitState}
    (hbegins : Begins store.state origin)
    (hfrom : WaitedFrom store.state advance.result.endsAt
      store.state.aggregate.blueprint.risks.rules advance.risks origin found)
    (hruns : intrinsicallyPaused store.state origin = .ok false) (hid : visit.id = found.id)
    (hpause : visit.pauseMicroseconds = found.pauseMicroseconds) : WaitsAccounted store' visit := by
  have hbefore := h.begins hbegins hruns
  have hrecords := h.waitRecords_of_tick hrun hslice hcounted hcommitted visit.id
  have hvisitId : visit.id = origin.id := hid.trans hfrom.id
  have htotal : waitTotal store'.groundTruth visit.id =
      origin.pauseMicroseconds + waitTotal advance.risks.groundTruth found.id := by
    have hsum := hbefore.total
    unfold waitTotal at hsum ⊢
    rw [hrecords, List.sum_append, hvisitId, hsum, hfrom.id]
  obtain ⟨added, hadded, hsublist⟩ := startedEvents_of_appendDrafts hcommitted.activity visit.id
  rw [((tickSlice_waits hslice).2 visit.id).2, hid] at hsublist
  -- the evaluation starts a wait only for a visit that has not waited
  have hfirst : added ≠ [] → startedEvents store.activity visit.id = [] ∧
      origin.pauseMicroseconds = 0 ∧ waitTotal advance.risks.groundTruth found.id ≠ 0 := by
    intro hne
    have hstarts : startedEvents advance.risks.activity found.id ≠ [] := by
      intro hnil
      rw [hnil, List.sublist_nil] at hsublist
      exact hne hsublist
    obtain ⟨hzero, hwaits⟩ := hfrom.started hstarts
    refine ⟨?_, hzero, hwaits⟩
    by_contra hstarted
    exact hbefore.started (hvisitId ▸ hstarted) hzero
  have hafter : visit.pauseMicroseconds =
      origin.pauseMicroseconds + waitTotal advance.risks.groundTruth found.id :=
    hpause.trans hfrom.pause
  have hnonneg : 0 ≤ waitTotal advance.risks.groundTruth found.id := by
    by_cases hzero : waitTotal advance.risks.groundTruth found.id = 0
    · omega
    · obtain ⟨-, -, -, wait, -, hbegun, hfits⟩ := hfrom.fits hzero
      rw [hfits]
      exact waitWithin_nonneg (by omega)
  have hpauseNonneg : 0 ≤ origin.pauseMicroseconds := by
    cases hbegins with
    | kept hmem => exact (store.scrum.complete.visit_valid hmem).pause.1
    | returned _ _ _ _ hzero => omega
  refine ⟨?_, ?_, fun hstarted => ?_, fun hne => ?_⟩
  · rw [hadded, List.length_append]
    by_cases hnone : added = []
    · rw [hnone, List.length_nil, hvisitId]
      exact hbefore.once
    · rw [(hfirst hnone).1, List.length_nil, Nat.zero_add]
      have hone := (evaluateDueRisks_waits hcounted hrun.risks hrun.working).one found.id
      exact hsublist.length_le.trans hone.2
  · rw [htotal, hafter]
  · by_cases hnone : added = []
    · rw [hadded, hnone, List.append_nil, hvisitId] at hstarted
      have := hbefore.started hstarted
      omega
    · obtain ⟨-, -, hwaits⟩ := hfirst hnone
      omega
  · rw [hcommitted.blueprint_eq]
    by_cases hzero : waitTotal advance.risks.groundTruth found.id = 0
    · obtain ⟨rule, hrule, hdependency, wait, hwait, hle⟩ := hbefore.fits (by omega)
      exact ⟨rule, hrule, hdependency, wait, hwait, by omega⟩
    · obtain ⟨rule, hrule, hdependency, wait, hwait, -, hfits⟩ := hfrom.fits hzero
      refine ⟨rule, hrule, hdependency, wait, hwait, ?_⟩
      unfold waitWithin at hfits
      omega

/-- A tick keeps the waits accounted. -/
theorem AccountedWaits.of_tick (hassembled : Assembled command.liveSlice advance command) :
    AccountedWaits store' := by
  have hwaits := evaluateDueRisks_waits hcounted hrun.risks hrun.working
  have hafter := hcommitted.afterTick hrun.working hassembled
  -- a visit that the evaluation does not know has no records
  have hnone : ∀ id, id ∉ advance.state.scrum.statusVisits.map (·.id) →
      waitRecords store'.groundTruth id = [] ∧ startedEvents store'.activity id = [] := by
    intro id hid
    obtain ⟨holdWaits, holdStarts⟩ := h.known id fun hmem => hid (writtenRows_ids hrun.working hmem)
    obtain ⟨hriskWaits, hriskStarts⟩ := hwaits.known id hid
    obtain ⟨added, hadded, hsublist⟩ := startedEvents_of_appendDrafts hcommitted.activity id
    rw [((tickSlice_waits hslice).2 id).2, hriskStarts, List.sublist_nil] at hsublist
    rw [h.waitRecords_of_tick hrun hslice hcounted hcommitted, holdWaits, hriskWaits, hadded,
      holdStarts, hsublist]
    exact ⟨rfl, rfl⟩
  refine ⟨fun visit hvisit hruns => ?_, fun id hid => hnone id fun hmem => hid ?_,
    h.dated_of_commit hcommitted (tick_waitVersion hrun hslice)⟩
  · rw [intrinsicallyPaused_of_commit hcommitted] at hruns
    cases hrun.waitRow hafter hcounted hvisit with
    | kept found hfound hid hstatus _ hpause =>
      obtain ⟨origin, hbegins, hfrom⟩ := hwaits.rows found hfound
      have hfoundRuns : intrinsicallyPaused advance.state found = .ok false :=
        (intrinsicallyPaused_of_status hwaits.aggregate hstatus.symm).trans hruns
      have horiginRuns : intrinsicallyPaused store.state origin = .ok false :=
        (intrinsicallyPaused_of_status hwaits.aggregate.symm hfrom.statusKey.symm).trans hfoundRuns
      refine h.visit_of_tick hrun hslice hcounted hcommitted hbegins hfrom horiginRuns hid
        (hpause fun htrue => ?_)
      rw [hfoundRuns] at htrue
      cases htrue
    | enters hnew hpause => exact waitsAccounted_of_none hpause (hnone visit.id hnew)
  · -- no visit is lost
    obtain ⟨row, hrow, rfl⟩ := List.mem_map.mp hmem
    by_cases hwritten : row.id ∈ advance.result.visits.map (·.id)
    · obtain ⟨row', hrow', hsame⟩ := List.mem_map.mp hwritten
      exact List.mem_map.mpr ⟨row', (hafter.visits row').mpr (.inl hrow'), hsame⟩
    · exact List.mem_map_of_mem ((hafter.visits row).mpr (.inr ⟨hrow, hwritten⟩))

end tick

/-! ### Runs -/

/-- In every run the waits of the visits are accounted. -/
theorem accountedWaits_of_reachable {store : TeamStore p} (h : (teamRuns p).Reachable store) :
    AccountedWaits store := by
  refine run_induction (I := AccountedWaits) h ?_ ?_ ?_
  · intro start draws context picked initial store _ hboot
    -- a new team has recorded no wait
    have hnone : ∀ id, waitRecords store.groundTruth id = [] ∧
        startedEvents store.activity id = [] := by
      intro id
      rw [hboot.groundTruth, hboot.activity]
      exact ⟨rfl, rfl⟩
    refine ⟨fun visit hvisit _ => ?_, fun id _ => hnone id, fun draft hdraft => ?_⟩
    · obtain ⟨item, -, -, activated, hactivated, hmem⟩ := (hboot.initialRows.visits visit).mp
        ((hboot.mem_rows Collection.statusVisits).mp hvisit)
      exact waitsAccounted_of_none (activateItem_first hactivated visit hmem).2.2.2.2
        (hnone visit.id)
    · rw [hboot.groundTruth] at hdraft
      cases hdraft
  · intro store store' _ haccounted hprovision
    rw [hprovision.same]
    refine ⟨fun visit hvisit hruns => ?_, haccounted.known, haccounted.dated⟩
    have hbefore := haccounted.visits visit hvisit hruns
    exact ⟨hbefore.once, hbefore.total, hbefore.started, hbefore.fits⟩
  · intro store event command store' hreach haccounted _ _ hof hcommitted
    cases hof with
    | tick request draws advance _ _ hadvance hslice _ hassembled =>
      obtain ⟨outcome, finish, hrun⟩ := tickAdvance_eq_ok hadvance
      exact haccounted.of_tick hrun hslice (ordinalsCounted_of_reachable hreach) hcommitted
        hassembled
    | boundary instant transition _ hstep _ hstate _ hactivity _ hgroundTruth =>
      obtain ⟨hfree, hother⟩ := hstep.no_waits
      refine haccounted.quiet hcommitted (hgroundTruth ▸ hfree) (hactivity ▸ hother) ?_
      intro visit hvisit
      -- a boundary opens visits without a pause
      rcases boundary_visits hreach hcommitted hstep hstate hvisit with
        hold | ⟨hnew, -, -, -, hpause⟩
      · exact .inl hold
      · exact .inr ⟨hnew, hpause⟩
    | downtime hempty _ _ hgroundTruth _ hactivity =>
      refine haccounted.quiet hcommitted (fun draft hdraft => ?_) (fun draft hdraft => ?_) ?_
      · obtain ⟨startsAt, endsAt, hpayload⟩ := hgroundTruth draft hdraft
        refine waitFree_of_payload fun record hrecord => ?_
        rw [hpayload] at hrecord
        cases hrecord
      · rw [hactivity draft hdraft]
        decide
      · exact fun visit hvisit => .inl
          ((hcommitted.mem_of_empty Collection.statusVisits (fun _ _ _ => rfl) hempty).mp hvisit)

/-! ### A tick that starts in a wait -/

/-- A committed tick of positive length that finds a visit waiting for an external dependency and
leaves it open. -/
structure WaitingTick (store : TeamStore p) (request : TickRequest) (draws : DrawSource)
    (store' : TeamStore p) (visit visit' : StatusVisitState) (wait : ℤ) : Prop where
  step : stepTeam store (.tick request draws) = .ok store'
  positive : cursor store.state < cursor store'.state
  visit_mem : visit ∈ store.scrum.statusVisits
  runs : intrinsicallyPaused store.state visit = .ok false
  visit_mem' : visit' ∈ store'.scrum.statusVisits
  id_eq : visit'.id = visit.id
  staysOpen : visit'.lifecycle = .OPEN
  rule : ∃ rule ∈ store.aggregate.blueprint.risks.rules,
    rule.key = "EXTERNAL_DEPENDENCY" ∧ totalWait rule = .ok wait
  paused : visit.pauseMicroseconds ≠ 0

/-- The tick adds the rest of the wait, as far as the rounded length of the tick holds it. -/
theorem WaitingTick.pause_eq {store store' : TeamStore p} {request : TickRequest}
    {draws : DrawSource} {visit visit' : StatusVisitState} {wait : ℤ}
    (h : WaitingTick store request draws store' visit visit' wait)
    (hreach : (teamRuns p).Reachable store) :
    visit'.pauseMicroseconds = visit.pauseMicroseconds +
      waitWithin wait visit.pauseMicroseconds (cursor store'.state - cursor store.state) := by
  have hcounted := ordinalsCounted_of_reachable hreach
  have haccounted := (accountedWaits_of_reachable hreach).visits visit h.visit_mem h.runs
  obtain ⟨rule, hrule, hkey, hwait⟩ := h.rule
  -- the rule that the visit waits for is the one of the blueprint
  have hdependency : DependencyRule rule := by
    obtain ⟨other, hother, hotherRule, -⟩ := haccounted.fits h.paused
    have hsame : other = rule := List.inj_on_of_nodup_map
      store.aggregate.blueprint.ruleKeys_nodup hother hrule (hotherRule.key.trans hkey.symm)
    exact hsame ▸ hotherRule
  have hstill : store' ≠ store := by
    intro hsame
    exact absurd h.positive (by rw [hsame]; exact lt_irrefl _)
  rcases stepTeam_eq_ok (Based.of_reachable hreach).loaded h.step with
    ⟨startedAt, hevent, -⟩ | hsame | ⟨command, -, hof, hcommitted⟩
  · cases hevent
  · exact absurd hsame hstill
  have hcursor : cursor store'.state = command.liveSlice.runtimeAfter.simulationTime :=
    hcommitted.runtime_eq.2.2.2.2
  cases hof with
  | boundary _ _ _ _ htime =>
    have hpositive := h.positive
    omega
  | downtime _ _ _ _ _ _ hevent => exact absurd rfl (hevent request draws)
  | tick request' draws' advance hevent _ hadvance _ htime hassembled =>
    obtain ⟨outcome, finish, hrun⟩ := tickAdvance_eq_ok hadvance
    have hwaits := evaluateDueRisks_waits hcounted hrun.risks hrun.working
    have hends : cursor store'.state = advance.result.endsAt := hcursor.trans htime
    have hknown : visit'.id ∈ store.scrum.statusVisits.map (·.id) :=
      List.mem_map.mpr ⟨visit, h.visit_mem, h.id_eq.symm⟩
    cases hrun.waitRow (hcommitted.afterTick hrun.working hassembled) hcounted h.visit_mem' with
    | enters hnew => exact absurd (writtenRows_ids hrun.working hknown) hnew
    | kept found hfound hid hstatus hopen hpause =>
      obtain ⟨origin, hbegins, hfrom⟩ := hwaits.rows found hfound
      have horiginId : origin.id = visit.id := by rw [← h.id_eq, hid, hfrom.id]
      have horigin : origin = visit := by
        cases hbegins with
        | kept hmem =>
          exact Collection.statusVisits.eq_of_key_eq store.scrum.complete.toConsistent hmem
            h.visit_mem horiginId
        | returned hnew =>
          exact absurd (List.mem_map.mpr ⟨visit, h.visit_mem, horiginId.symm⟩) hnew
      subst horigin
      have hfoundRuns : intrinsicallyPaused advance.state found = .ok false :=
        (intrinsicallyPaused_of_status hwaits.aggregate hfrom.statusKey).trans h.runs
      have hpositive := h.positive
      rw [hends] at hpositive
      obtain ⟨wait', hwait', hadds⟩ := hfrom.continues (hopen h.staysOpen) h.paused h.runs
        hpositive rule hrule hdependency
      obtain rfl : wait' = wait := Except.ok.inj (hwait'.symm.trans hwait)
      rw [hpause fun htrue => ?_, hfrom.pause, hadds, hends]
      rw [hfoundRuns] at htrue
      cases htrue

end JiraSimulator
