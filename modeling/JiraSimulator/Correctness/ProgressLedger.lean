import JiraSimulator.Correctness.RiskLedgers
import JiraSimulator.Correctness.Scripts
import JiraSimulator.Correctness.VisitRows

/-!
# The progress records of the visits

A tick records the progress of the visits that it writes, except of open visits after the first:
these are meant to be the visits that it has just entered, but a later visit that stays in progress
is one of them too.  While every later visit that progresses is complete at the end of its tick,
the touch deltas recorded for a visit add up to its credited labor.
-/

namespace JiraSimulator

open Library Library.Outcome Library.Transition ScrumCollections

variable {p : Platform}

/-! ### Records of a visit -/

/-- The progress record about a visit, if the draft is one. -/
def progressRecordOf (visit : StatusVisitState) (draft : GroundTruthRecordDraft) :
    Option IssueStateRecord :=
  match draft.semanticKey, draft.payload with
  | .scrumTick _ _ _ item ordinal _, .issueState record =>
    if item = visit.workItemId ∧ ordinal = visit.ordinal then some record else none
  | _, _ => none

/-- The `ISSUE_STATE` records about a visit. -/
def progressRecords (ledger : List GroundTruthRecordDraft) (visit : StatusVisitState) :
    List IssueStateRecord :=
  ledger.filterMap (progressRecordOf visit)

/-- The touch deltas recorded for a visit. -/
def touchTotal (ledger : List GroundTruthRecordDraft) (visit : StatusVisitState) : ℤ :=
  ((progressRecords ledger visit).map (·.touchDeltaMicroseconds)).sum

theorem progressRecordOf_eq_some {visit : StatusVisitState} {draft : GroundTruthRecordDraft}
    {record : IssueStateRecord} (h : progressRecordOf visit draft = some record) :
    draft.payload = .issueState record ∧ ∃ team run version endsAt,
      draft.semanticKey = .scrumTick team run version visit.workItemId visit.ordinal endsAt := by
  unfold progressRecordOf at h
  split at h
  · rename_i team run version item ordinal endsAt record' hkey hpayload
    split_ifs at h with hvisit
    obtain ⟨rfl, rfl⟩ := hvisit
    cases h
    exact ⟨hpayload, team, run, version, endsAt, hkey⟩
  · cases h

theorem progressRecordOf_of_payload {visit : StatusVisitState} {draft : GroundTruthRecordDraft}
    (h : ∀ record, draft.payload ≠ .issueState record) : progressRecordOf visit draft = none := by
  cases hrecord : progressRecordOf visit draft with
  | none => rfl
  | some record => exact absurd (progressRecordOf_eq_some hrecord).1 (h record)

/-- Records are found by the identity of the visit. -/
theorem progressRecordOf_congr {a b : StatusVisitState} (hwork : a.workItemId = b.workItemId)
    (hordinal : a.ordinal = b.ordinal) : progressRecordOf a = progressRecordOf b := by
  funext draft
  unfold progressRecordOf
  rw [hwork, hordinal]

theorem progressRecords_append (ledger added : List GroundTruthRecordDraft)
    (visit : StatusVisitState) :
    progressRecords (ledger ++ added) visit =
      progressRecords ledger visit ++ progressRecords added visit :=
  List.filterMap_append

theorem touchTotal_append (ledger added : List GroundTruthRecordDraft) (visit : StatusVisitState) :
    touchTotal (ledger ++ added) visit = touchTotal ledger visit + touchTotal added visit := by
  unfold touchTotal
  rw [progressRecords_append, List.map_append, List.sum_append]

/-! ### The drafts of one visit -/

/-- The ground truth that a tick drafts for a visit that it writes. -/
structure VisitTruth (advance : RiskAdvance p) (visit : StatusVisitState)
    (truth : List GroundTruthRecordDraft) : Prop where
  skipped : 0 < visit.ordinal ∧ visit.lifecycle = .OPEN → truth = []
  recorded : ¬(0 < visit.ordinal ∧ visit.lifecycle = .OPEN) →
    ∃ original ∈ advance.state.scrum.statusVisits, original.id = visit.id ∧
      ∃ draft record, truth = [draft] ∧
        draft.semanticKey = ledgerKey advance.state visit advance.result.endsAt ∧
        draft.payload = .issueState record ∧ record.touchDeltaMicroseconds =
          visit.creditedLaborMicroseconds - original.creditedLaborMicroseconds

theorem groundTruthDraft_eq_ok {item : LedgerItem p} {draft : GroundTruthRecordDraft}
    (h : groundTruthDraft item = .ok draft) :
    draft.semanticKey = item.semanticKey ∧ ∃ record, draft.payload = .issueState record ∧
      record.touchDeltaMicroseconds =
        item.visit.creditedLaborMicroseconds - item.originalVisit.creditedLaborMicroseconds := by
  simp only [groundTruthDraft, bind_eq_ok, pure_eq_ok] at h
  obtain ⟨calendar, -, delta, -, timing, -, rfl⟩ := h
  exact ⟨rfl, _, rfl, rfl⟩

theorem visitDrafts_eq_ok {advance : RiskAdvance p} {visit : StatusVisitState}
    {drafts : VisitDrafts}
    (h : visitDrafts advance.state advance.result.endsAt advance.result visit = .ok drafts) :
    VisitTruth advance visit drafts.groundTruth := by
  unfold visitDrafts at h
  by_cases hskip : 0 < visit.ordinal ∧ visit.lifecycle = .OPEN
  · rw [if_pos hskip, pure_eq_ok] at h
    exact ⟨fun _ => h ▸ rfl, fun hnot => absurd hskip hnot⟩
  · rw [if_neg hskip] at h
    simp only [bind_eq_ok] at h
    obtain ⟨before, -, original, horiginal, summary, -, truth, htruth, h⟩ := h
    obtain ⟨hmem, hid⟩ := getItem_eq_ok horiginal
    obtain ⟨hkey, record, hpayload, hdelta⟩ := groundTruthDraft_eq_ok htruth
    have hdrafts : drafts.groundTruth = [truth] := by
      split_ifs at h <;>
      · simp only [bind_eq_ok, pure_eq_ok] at h
        obtain ⟨projection, -, rfl⟩ := h
        rfl
    exact ⟨fun h => absurd h hskip,
      fun _ => ⟨original, hmem, hid, truth, record, hdrafts, hkey, hpayload, hdelta⟩⟩

/-- The ground truth of a tick: that of the visits it writes, and that of its risks. -/
theorem tickSlice_groundTruth {request : TickRequest} {advance : RiskAdvance p}
    {slice : TickSliceCommit} (h : tickSlice request advance = .ok slice) :
    ∃ truths, slice.groundTruth = truths.flatten ++ advance.risks.groundTruth ∧
      List.Forall₂ (VisitTruth advance) advance.result.visits truths := by
  simp only [tickSlice, liveSlice, ledgerDrafts, withRiskLedgers, bind_eq_ok, validated_eq_ok,
    pure_eq_ok] at h
  obtain ⟨live, ⟨drafts, ⟨visits, hvisits, rfl⟩, -, rfl⟩, -, rfl⟩ := h
  refine ⟨visits.map (·.groundTruth), by rw [← List.flatMap_def], ?_⟩
  rw [List.forall₂_map_right_iff]
  exact (mapM_eq_ok.mp hvisits).imp fun _ _ => visitDrafts_eq_ok

theorem evaluateDueRisks_not_progress {state : LiveTeamState p} {asOf : ℤ} {draws : DrawSource}
    {risks : RiskRecords p} (h : evaluateDueRisks state asOf draws = .ok risks)
    {draft : GroundTruthRecordDraft} (hdraft : draft ∈ risks.groundTruth)
    (record : IssueStateRecord) : draft.payload ≠ .issueState record := by
  obtain ⟨-, -, -, -, evidence, -, -, -, rfl⟩ := evaluateDueRisks_groundTruth h hdraft
  intro heq
  cases heq

/-! ### The drafts of a tick -/

section drafts

variable {advance : RiskAdvance p} {visits : List StatusVisitState}
  {truths : List (List GroundTruthRecordDraft)} {visit : StatusVisitState}

theorem VisitTruth.not_about {x : StatusVisitState} {truth : List GroundTruthRecordDraft}
    (h : VisitTruth advance x truth)
    (hother : ¬(x.workItemId = visit.workItemId ∧ x.ordinal = visit.ordinal)) :
    progressRecords truth visit = [] := by
  by_cases hskip : 0 < x.ordinal ∧ x.lifecycle = .OPEN
  · rw [h.skipped hskip]
    rfl
  · obtain ⟨-, -, -, draft, record, rfl, hkey, -⟩ := h.recorded hskip
    refine List.filterMap_eq_nil_iff.mpr fun d hd => ?_
    rw [List.mem_singleton.mp hd]
    cases hsome : progressRecordOf visit draft with
    | none => rfl
    | some record' =>
      obtain ⟨-, team, run, version, endsAt, hkey'⟩ := progressRecordOf_eq_some hsome
      rw [hkey, ledgerKey, SemanticKey.scrumTick.injEq] at hkey'
      exact absurd ⟨hkey'.2.2.2.1, hkey'.2.2.2.2.1⟩ hother

/-- A tick drafts nothing for a visit that it does not write. -/
theorem progressRecords_of_not_written (h : List.Forall₂ (VisitTruth advance) visits truths)
    (hother : ∀ x ∈ visits, ¬(x.workItemId = visit.workItemId ∧ x.ordinal = visit.ordinal)) :
    progressRecords truths.flatten visit = [] := by
  induction h with
  | nil => rfl
  | cons htruth _ ih =>
    rw [List.flatten_cons, progressRecords_append,
      htruth.not_about (hother _ List.mem_cons_self),
      ih fun x hx => hother x (List.mem_cons_of_mem _ hx)]
    rfl

/-- A tick drafts for a visit that it writes what the visit itself asks for. -/
theorem progressRecords_of_written (h : List.Forall₂ (VisitTruth advance) visits truths)
    (hids : ∀ x ∈ visits, x.id = .visit x.workItemId x.ordinal)
    (hnodup : (visits.map (·.id)).Nodup) (hvisit : visit ∈ visits) :
    ∃ truth, VisitTruth advance visit truth ∧
      progressRecords truths.flatten visit = progressRecords truth visit := by
  induction h with
  | nil => cases hvisit
  | @cons x truth rest _ htruth hrest ih =>
    rw [List.map_cons, List.nodup_cons] at hnodup
    rw [List.flatten_cons, progressRecords_append]
    rcases List.mem_cons.mp hvisit with rfl | hmem
    · refine ⟨truth, htruth, ?_⟩
      rw [progressRecords_of_not_written hrest, List.append_nil]
      -- a second visit with the same coordinates would have the same identifier
      rintro y hy ⟨hwork, hordinal⟩
      have hid : y.id = visit.id := by
        rw [hids y (List.mem_cons_of_mem _ hy), hids visit List.mem_cons_self, hwork, hordinal]
      exact hnodup.1 (List.mem_map.mpr ⟨y, hy, hid⟩)
    · obtain ⟨truth', htruth', heq⟩ :=
        ih (fun y hy => hids y (List.mem_cons_of_mem _ hy)) hnodup.2 hmem
      refine ⟨truth', htruth', ?_⟩
      rw [heq, htruth.not_about, List.nil_append]
      rintro ⟨hwork, hordinal⟩
      have hid : visit.id = x.id := by
        rw [hids visit (List.mem_cons_of_mem _ hmem), hids x List.mem_cons_self, hwork, hordinal]
      exact hnodup.1 (List.mem_map.mpr ⟨visit, hmem, hid⟩)

/-- At most one record is drafted for a visit, and an emitted one counts its labor. -/
theorem VisitTruth.records {truth : List GroundTruthRecordDraft}
    (h : VisitTruth advance visit truth) (hemits : ¬(0 < visit.ordinal ∧ visit.lifecycle = .OPEN)) :
    ∃ original ∈ advance.state.scrum.statusVisits, original.id = visit.id ∧
      ∃ record, progressRecords truth visit = [record] ∧ record.touchDeltaMicroseconds =
        visit.creditedLaborMicroseconds - original.creditedLaborMicroseconds := by
  obtain ⟨original, hmem, hid, draft, record, rfl, hkey, hpayload, hdelta⟩ := h.recorded hemits
  refine ⟨original, hmem, hid, record, ?_, hdelta⟩
  have hrecord : progressRecordOf visit draft = some record := by
    unfold progressRecordOf
    rw [hkey, hpayload]
    exact if_pos ⟨rfl, rfl⟩
  simp [progressRecords, hrecord]

end drafts

/-! ### Appended records -/

/-- The records that a commit appends for a visit are those that it drafts for it. -/
theorem progressRecords_of_appendDrafts {ledger ledger' drafts : List GroundTruthRecordDraft}
    {visit : StatusVisitState}
    (h : appendDrafts (·.semanticKey) ledger drafts = .ok ledger')
    (hfresh : ∀ draft ∈ drafts, ∀ record, draft.payload = .issueState record → draft ∉ ledger)
    (hone : (progressRecords drafts visit).length ≤ 1) :
    progressRecords (ledger'.drop ledger.length) visit = progressRecords drafts visit := by
  obtain ⟨added, rfl, -, -⟩ := appendDrafts_eq_ok h
  have happended : progressRecords (ledger ++ added) visit =
      progressRecords ledger visit ++ progressRecords drafts visit := by
    refine filterMap_of_appendDrafts h (fun draft hdraft record hrecord => ?_) hone
    exact hfresh draft hdraft record (progressRecordOf_eq_some hrecord).1
  rw [List.drop_left]
  rw [progressRecords_append] at happended
  exact List.append_cancel_left happended

/-! ### Records of a run -/

/-- The progress records of a run are about its visits, and were made by earlier versions. -/
def RecordsDated (store : TeamStore p) : Prop :=
  ∀ draft ∈ store.groundTruth, ∀ record, draft.payload = .issueState record →
    ∃ team run version item ordinal endsAt,
      draft.semanticKey = .scrumTick team run version item ordinal endsAt ∧
      version < store.aggregate.runtime.version ∧
      Uuid.visit item ordinal ∈ store.scrum.statusVisits.map (·.id)

theorem BoundaryStep.not_progress {state : LiveTeamState p} {boundary : ℤ}
    {transition : SprintTransition p} (h : BoundaryStep state boundary transition)
    {draft : GroundTruthRecordDraft} (hdraft : draft ∈ transition.groundTruth)
    (record : IssueStateRecord) : draft.payload ≠ .issueState record := by
  intro hpayload
  cases h with
  | quiet h =>
    subst h
    cases hdraft
  | activates =>
    rename_i h
    subst h
    rw [List.mem_singleton.mp hdraft] at hpayload
    cases hpayload
  | rolls =>
    rename_i h
    subst h
    rw [List.mem_singleton.mp hdraft] at hpayload
    cases hpayload

/-- A tick writes valid visits. -/
theorem AfterTick.ids {advance : RiskAdvance p} {c' : ScrumCollections}
    (h : AfterTick advance c') : ∀ x ∈ advance.result.visits, x.id = .visit x.workItemId x.ordinal :=
  fun _ hx => (h.progress.visit_valid hx).id

theorem recordsDated_of_reachable {store : TeamStore p} (h : (teamRuns p).Reachable store) :
    RecordsDated store := by
  refine run_induction h ?_ ?_ ?_
  · intro start draws context picked initial store _ hboot draft hdraft
    rw [hboot.groundTruth] at hdraft
    cases hdraft
  · intro store store' _ hdated hprovision
    rw [hprovision.same]
    exact hdated
  · intro store event command store' hreach hdated _ hkept hof hcommitted draft hdraft record hpayload
    have hversion := hcommitted.runtime_eq.2.2.1
    obtain ⟨added, hadded, hsublist, -⟩ := appendDrafts_eq_ok hcommitted.groundTruth
    rw [hadded, List.mem_append] at hdraft
    -- a record that was there names an earlier version, a new one names the version of this tick
    rcases hdraft with hold | hnew
    · obtain ⟨team, run, version, item, ordinal, endsAt, hkey, hlt, hmem⟩ :=
        hdated draft hold record hpayload
      obtain ⟨visit, hvisit, hid⟩ := List.mem_map.mp hmem
      obtain ⟨visit', hvisit', hid'⟩ :=
        hcommitted.mem_keys Collection.statusVisits (fun _ _ _ => rfl) hvisit
      exact ⟨team, run, version, item, ordinal, endsAt, hkey, by omega,
        List.mem_map.mpr ⟨visit', hvisit', hid'.trans hid⟩⟩
    · replace hnew := hsublist.subset hnew
      cases hof with
      | tick request draws advance _ _ hadvance hslice _ hassembled =>
        obtain ⟨outcome, finish, hrun⟩ := tickAdvance_eq_ok hadvance
        obtain ⟨hagg, -⟩ := LiveTeamState.withWriteSet_eq_ok.mp hrun.working
        have hafter := hcommitted.afterTick hrun.working hassembled
        obtain ⟨truths, htruths, hall⟩ := tickSlice_groundTruth hslice
        rw [htruths, List.mem_append] at hnew
        rcases hnew with hprogress | hrisk
        · obtain ⟨truth, htruth, hmem⟩ := List.mem_flatten.mp hprogress
          obtain ⟨x, hx, hxtruth⟩ := forall₂_exists_left hall htruth
          by_cases hskip : 0 < x.ordinal ∧ x.lifecycle = .OPEN
          · rw [hxtruth.skipped hskip] at hmem
            cases hmem
          · obtain ⟨-, -, -, draft', record', rfl, hkey, -⟩ := hxtruth.recorded hskip
            rw [List.mem_singleton.mp hmem]
            refine ⟨_, _, _, _, _, _, hkey, ?_, ?_⟩
            · rw [hagg]
              show store.aggregate.runtime.version < _
              omega
            · rw [← hafter.ids x hx]
              exact List.mem_map_of_mem ((hafter.visits x).mpr (.inl hx))
        · exact absurd hpayload (evaluateDueRisks_not_progress hrun.risks hrisk record)
      | boundary instant transition _ hstep _ _ _ _ _ hgroundTruth =>
        rw [hgroundTruth] at hnew
        exact absurd hpayload (hstep.not_progress hnew record)
      | downtime _ _ _ hgroundTruth =>
        obtain ⟨startsAt, endsAt, hdowntime⟩ := hgroundTruth draft hnew
        rw [hdowntime] at hpayload
        cases hpayload

/-- No record is about a visit that is not a row. -/
theorem touchTotal_of_new {store : TeamStore p} (h : RecordsDated store) {visit : StatusVisitState}
    (hid : visit.id = .visit visit.workItemId visit.ordinal)
    (hnew : visit.id ∉ store.scrum.statusVisits.map (·.id)) :
    touchTotal store.groundTruth visit = 0 := by
  have hnone : progressRecords store.groundTruth visit = [] := by
    refine List.filterMap_eq_nil_iff.mpr fun draft hdraft => ?_
    cases hsome : progressRecordOf visit draft with
    | none => rfl
    | some record =>
      obtain ⟨hpayload, team, run, version, endsAt, hkey⟩ := progressRecordOf_eq_some hsome
      obtain ⟨_, _, _, item, ordinal, _, hkey', -, hmem⟩ := h draft hdraft record hpayload
      rw [hkey, SemanticKey.scrumTick.injEq] at hkey'
      rw [← hkey'.2.2.2.1, ← hkey'.2.2.2.2.1, ← hid] at hmem
      exact absurd hmem hnew
  rw [touchTotal, hnone]
  rfl

theorem touchTotal_eq_zero {drafts : List GroundTruthRecordDraft} {visit : StatusVisitState}
    (h : ∀ draft ∈ drafts, ∀ record, draft.payload ≠ .issueState record) :
    touchTotal drafts visit = 0 := by
  have hnone : progressRecords drafts visit = [] :=
    List.filterMap_eq_nil_iff.mpr fun draft hdraft => progressRecordOf_of_payload (h draft hdraft)
  rw [touchTotal, hnone]
  rfl

/-! ### Visits in progress -/

/-- The visit progressed over the segments of a tick and is not complete at its end. -/
def StaysInProgress (state : LiveTeamState p) (advance : RiskAdvance p)
    (visit : StatusVisitState) : Prop :=
  ∃ calendar segments outcome sample, state.calendar = .ok calendar ∧
    businessSegments advance.state calendar (cursor state) advance.result.endsAt = .ok segments ∧
    runSegments advance.state calendar (riskBlockedVisits state advance.risks)
      advance.result.endsAt segments (openVisits advance.state) (consumptionMap advance.state) =
        .ok outcome ∧
    visit ∈ outcome.visits ∧ visit ∉ openVisits advance.state ∧
    getItem (·.visitId) advance.state.scrum.statusVisitSamples visit.id = .ok sample ∧
    isComplete visit sample advance.result.endsAt calendar = .ok false

/-- A later visit that progresses in the tick is complete at its end. -/
def CompletesProgress (store : TeamStore p) (event : TeamEvent) : Prop :=
  ∀ request draws advance visit, event = .tick request draws →
    tickAdvance store.state request draws = .ok advance →
    StaysInProgress store.state advance visit → visit.ordinal = 0

theorem finishVisit_incomplete {state : LiveTeamState p} {calendar : BusinessCalendar} {instant : ℤ}
    {draws : DrawSource} {visit : StatusVisitState} {finished : FinishedVisit}
    (h : finishVisit state calendar (openVisits state) instant draws visit = .ok finished)
    (hnone : finished.workItems = []) :
    ∃ sample, getItem (·.visitId) state.scrum.statusVisitSamples visit.id = .ok sample ∧
      isComplete visit sample instant calendar = .ok false := by
  simp only [finishVisit, bind_eq_ok] at h
  obtain ⟨sample, hsample, complete, hcomplete, h⟩ := h
  cases complete with
  | false => exact ⟨sample, hsample, hcomplete⟩
  | true =>
    simp only [if_true, bind_eq_ok, pure_eq_ok] at h
    obtain ⟨closed, -, work, -, moved, -, rfl⟩ := h
    cases hnone

/-- A visit in progress is written as it is. -/
theorem finishVisit_of_incomplete {state : LiveTeamState p} {calendar : BusinessCalendar}
    {instant : ℤ} {draws : DrawSource} {visit : StatusVisitState} {finished : FinishedVisit}
    {sample : StatusVisitSample}
    (h : finishVisit state calendar (openVisits state) instant draws visit = .ok finished)
    (hsample : getItem (·.visitId) state.scrum.statusVisitSamples visit.id = .ok sample)
    (hcomplete : isComplete visit sample instant calendar = .ok false)
    (hnew : visit ∉ openVisits state) : visit ∈ finished.visits := by
  simp only [finishVisit, hsample, hcomplete, ok_bind, bind_eq_ok, Bool.false_eq_true, if_false,
    pure_eq_ok] at h
  obtain ⟨before, hbefore, rfl⟩ := h
  have hne : visit ≠ before := fun heq => hnew (heq ▸ (getItem_eq_ok hbefore).1)
  show visit ∈ (if visit ≠ before then [visit] else [])
  rw [if_pos hne]
  exact List.mem_singleton_self visit

/-- A row that the progress of a tick writes: a visit in progress, a closed visit, or the visit that
its item enters next. -/
inductive WrittenVisit (state : LiveTeamState p) (advance : RiskAdvance p)
    (visit : StatusVisitState) : Prop
  | progressed (before : StatusVisitState) (hbefore : before ∈ openVisits advance.state)
      (same : SameVisit before visit) (stays : StaysInProgress state advance visit)
  | closed (before x : StatusVisitState) (hbefore : before ∈ openVisits advance.state)
      (same : SameVisit before x) (h : visit = closedVisit x advance.result.endsAt)
  | entered (before x : StatusVisitState) (hbefore : before ∈ openVisits advance.state)
      (same : SameVisit before x)
      (hclosed : closedVisit x advance.result.endsAt ∈ advance.result.visits)
      (counter : SemanticCounter) (hcounter : counter ∈ advance.state.scrum.semanticCounters)
      (hscope : counter.scope = .visitOrdinal x.workItemId)
      (hordinal : visit.ordinal = counter.nextValue) (hwork : visit.workItemId = x.workItemId)
      (hid : visit.id = .visit x.workItemId counter.nextValue)
      (hopen : visit.lifecycle = .OPEN) (hcredited : visit.creditedLaborMicroseconds = 0)
      (hclaim : ∃ claim ∈ advance.result.claims, claim.scope = .visitOrdinal x.workItemId)

section written

variable {state : LiveTeamState p} {draws : DrawSource} {advance : RiskAdvance p}
  {outcome : SegmentsOutcome} {finish : StatusVisitState → FinishedVisit}

theorem TickRun.writtenVisit (h : TickRun state draws advance outcome finish)
    {visit : StatusVisitState} (hvisit : visit ∈ advance.result.visits) :
    WrittenVisit state advance visit := by
  obtain ⟨x, hx, hmem⟩ := h.mem_visits.mp hvisit
  obtain ⟨before, hbefore, same⟩ := h.exists_before hx
  obtain ⟨calendar, segments, hcalls⟩ := h.calls
  cases h.finishes x hx with
  | kept _ heq =>
    rw [heq] at hmem
    cases hmem
  | advanced other hother hid hne heq =>
    rw [heq, List.mem_singleton] at hmem
    subst hmem
    -- the visit has changed, so it is no longer among the open ones
    have hnew : visit ∉ openVisits advance.state := fun hsame =>
      hne (List.inj_on_of_nodup_map (openVisits_nodup advance.state) hsame hother hid.symm)
    obtain ⟨sample, hsample, hcomplete⟩ :=
      finishVisit_incomplete (hcalls.finish_eq visit hx) (by rw [heq])
    exact .progressed before hbefore same ⟨calendar, segments, outcome, sample, hcalls.calendar_eq,
      hcalls.segments_eq, hcalls.outcome_eq, hx, hnew, hsample, hcomplete⟩
  | done _ _ _ _ _ _ _ heq =>
    rw [heq, List.mem_singleton] at hmem
    exact .closed before x hbefore same hmem
  | moved work later step counter next sample completion _ hcounter _ henters _ heq =>
    rw [heq] at hmem
    simp only [List.mem_cons, List.not_mem_nil, or_false] at hmem
    rcases hmem with rfl | rfl
    · exact .closed before x hbefore same rfl
    · obtain ⟨hcounter, hscope⟩ := visitCounter_eq_ok hcounter
      have hwork : work.id = x.workItemId := completion.work_id
      refine .entered before x hbefore same ?_ counter hcounter (hwork ▸ hscope)
        henters.ordinal_eq (henters.workItemId_eq.trans hwork) ?_ henters.lifecycle_eq
        henters.credited_eq ?_
      · refine h.mem_visits.mpr ⟨x, hx, ?_⟩
        rw [heq]
        exact List.mem_cons_self
      · rw [henters.id_eq, ← hwork]
        rfl
      · rw [h.claims]
        refine ⟨{ scope := counter.scope, expectedNext := counter.nextValue, count := 1 },
          List.mem_flatMap.mpr ⟨x, hx, ?_⟩, hwork ▸ hscope⟩
        rw [heq]
        exact List.mem_singleton_self _

/-- A visit in progress is written. -/
theorem TickRun.mem_of_stays (h : TickRun state draws advance outcome finish)
    {visit : StatusVisitState} (hstays : StaysInProgress state advance visit) :
    visit ∈ advance.result.visits ∧ ∃ before ∈ openVisits advance.state, SameVisit before visit := by
  obtain ⟨calendar, segments, outcome', sample, hcalendar, hsegments, houtcome, hmem, hnew, hsample,
    hcomplete⟩ := hstays
  obtain ⟨calendar', segments', hcalls⟩ := h.calls
  have hcal := hcalls.calendar_eq
  rw [hcalendar, Except.ok.injEq] at hcal
  subst hcal
  have hseg := hcalls.segments_eq
  rw [hsegments, Except.ok.injEq] at hseg
  subst hseg
  have hout := hcalls.outcome_eq
  rw [houtcome, Except.ok.injEq] at hout
  subst hout
  exact ⟨h.mem_visits.mpr ⟨visit, hmem,
    finishVisit_of_incomplete (hcalls.finish_eq visit hmem) hsample hcomplete hnew⟩,
    h.exists_before hmem⟩

end written

/-! ### The records of one tick -/

/-- The progress records that a commit has appended for a visit. -/
def newRecords (store store' : TeamStore p) (visit : StatusVisitState) : List IssueStateRecord :=
  progressRecords (store'.groundTruth.drop store.groundTruth.length) visit

/-- The tick has recorded every visit that its progress changed, once. -/
def RecordsChanges (store : TeamStore p) (advance : RiskAdvance p) (store' : TeamStore p) : Prop :=
  ∀ before ∈ openVisits advance.state, ∀ after ∈ store'.scrum.statusVisits, after.id = before.id →
    after ≠ before → ∃ record, newRecords store store' after = [record]

section tick

variable {store store' : TeamStore p} {command : AuthoritativeTickSliceCommit p}
  {request : TickRequest} {draws : DrawSource} {advance : RiskAdvance p} {outcome : SegmentsOutcome}
  {finish : StatusVisitState → FinishedVisit}
  (hreach : (teamRuns p).Reachable store) (hcommitted : Committed store command store')
  (hrun : TickRun store.state draws advance outcome finish)
  (hslice : tickSlice request advance = .ok command.liveSlice)
  (hassembled : Assembled command.liveSlice advance command)

include hreach hcommitted hrun hslice hassembled

/-- What a tick appends for a visit is what it drafts for it. -/
theorem newRecords_eq (visit : StatusVisitState) :
    (visit ∈ advance.result.visits → ∃ truth, VisitTruth advance visit truth ∧
      newRecords store store' visit = progressRecords truth visit) ∧
    ((∀ x ∈ advance.result.visits,
      ¬(x.workItemId = visit.workItemId ∧ x.ordinal = visit.ordinal)) →
      newRecords store store' visit = []) := by
  have hafter := hcommitted.afterTick hrun.working hassembled
  obtain ⟨hagg, -⟩ := LiveTeamState.withWriteSet_eq_ok.mp hrun.working
  obtain ⟨truths, htruths, hall⟩ := tickSlice_groundTruth hslice
  have hrisks : progressRecords advance.risks.groundTruth visit = [] :=
    List.filterMap_eq_nil_iff.mpr fun draft hdraft => progressRecordOf_of_payload
      (evaluateDueRisks_not_progress hrun.risks hdraft)
  have hdrafts : progressRecords command.liveSlice.groundTruth visit =
      progressRecords truths.flatten visit := by
    rw [htruths, progressRecords_append, hrisks, List.append_nil]
  -- a draft with the current version is not in the ledger
  have hfresh : ∀ draft ∈ command.liveSlice.groundTruth, ∀ record,
      draft.payload = .issueState record → draft ∉ store.groundTruth := by
    intro draft hdraft record hpayload hold
    obtain ⟨team, run, version, item, ordinal, endsAt, hkey, hlt, -⟩ :=
      recordsDated_of_reachable hreach draft hold record hpayload
    rw [htruths, List.mem_append] at hdraft
    rcases hdraft with hprogress | hrisk
    · obtain ⟨truth, htruth, hmem⟩ := List.mem_flatten.mp hprogress
      obtain ⟨x, -, hxtruth⟩ := forall₂_exists_left hall htruth
      by_cases hskip : 0 < x.ordinal ∧ x.lifecycle = .OPEN
      · rw [hxtruth.skipped hskip] at hmem
        cases hmem
      · obtain ⟨-, -, -, draft', record', rfl, hkey', -⟩ := hxtruth.recorded hskip
        rw [List.mem_singleton.mp hmem, hkey', ledgerKey, hagg, SemanticKey.scrumTick.injEq] at hkey
        have hversion : store.aggregate.runtime.version = version := hkey.2.2.1
        omega
    · exact evaluateDueRisks_not_progress hrun.risks hrisk record hpayload
  have happended : (progressRecords command.liveSlice.groundTruth visit).length ≤ 1 →
      newRecords store store' visit = progressRecords truths.flatten visit := fun hone =>
    (progressRecords_of_appendDrafts hcommitted.groundTruth hfresh hone).trans hdrafts
  refine ⟨fun hvisit => ?_, fun hother => ?_⟩
  · obtain ⟨truth, htruth, heq⟩ :=
      progressRecords_of_written hall hafter.ids hafter.visits_nodup hvisit
    refine ⟨truth, htruth, (happended ?_).trans heq⟩
    rw [hdrafts, heq]
    by_cases hskip : 0 < visit.ordinal ∧ visit.lifecycle = .OPEN
    · rw [htruth.skipped hskip]
      exact Nat.zero_le 1
    · obtain ⟨-, -, -, record, hrecord, -⟩ := htruth.records hskip
      rw [hrecord]
      exact le_rfl
  · have hnone := progressRecords_of_not_written hall hother
    exact (happended (by rw [hdrafts, hnone]; exact Nat.zero_le 1)).trans hnone

/-- A tick records every visit that its progress changed exactly when no later visit stays in
progress. -/
theorem recordsChanges_iff : RecordsChanges store advance store' ↔
    ∀ visit, StaysInProgress store.state advance visit → visit.ordinal = 0 := by
  have hafter := hcommitted.afterTick hrun.working hassembled
  constructor
  · intro hrecords visit hstays
    obtain ⟨hmem, before, hbefore, same⟩ := hrun.mem_of_stays hstays
    have hne : visit ≠ before := by
      obtain ⟨-, -, -, -, -, -, -, -, hnew, -⟩ := hstays
      exact fun heq => hnew (heq ▸ hbefore)
    obtain ⟨record, hrecord⟩ := hrecords before hbefore visit
      ((hafter.visits visit).mpr (.inl hmem)) same.id hne
    obtain ⟨truth, htruth, heq⟩ :=
      (newRecords_eq hreach hcommitted hrun hslice hassembled visit).1 hmem
    -- an open visit after the first is skipped
    by_contra hpos
    have hopen : visit.lifecycle = .OPEN := same.lifecycle.trans (mem_openVisits.mp hbefore).2
    rw [heq, htruth.skipped ⟨by omega, hopen⟩] at hrecord
    cases hrecord
  · intro hzero before hbefore after hmem hid hne
    have hwritten : after ∈ advance.result.visits := by
      refine ((hafter.visits after).mp hmem).resolve_right fun hstays => hne ?_
      have hnodup := advance.state.scrum.complete.keysUnique.statusVisits
      exact List.inj_on_of_nodup_map hnodup hstays.1 (mem_openVisits.mp hbefore).1 hid
    obtain ⟨truth, htruth, heq⟩ :=
      (newRecords_eq hreach hcommitted hrun hslice hassembled after).1 hwritten
    have hemits : ¬(0 < after.ordinal ∧ after.lifecycle = .OPEN) := by
      rintro ⟨hpos, hopen⟩
      cases hrun.writtenVisit hwritten with
      | progressed _ _ _ hstays =>
        have hordinal := hzero after hstays
        omega
      | closed _ x _ _ heq =>
        rw [heq] at hopen
        cases hopen
      | entered other x hother same hclosed counter hcounter hscope hordinal hwork hid' hopen' =>
        -- the next visit of the item is not the one that was open
        have hsame : before = other := by
          have hvalid := advance.state.scrum.complete.toConsistent
          refine hvalid.openVisit_unique (mem_openVisits.mp hbefore).1 (mem_openVisits.mp hother).1
            (mem_openVisits.mp hbefore).2 (mem_openVisits.mp hother).2 ?_
          have hbeforeId := (hvalid.visit_valid (mem_openVisits.mp hbefore).1).id
          rw [← hid, hid', Uuid.visit.injEq] at hbeforeId
          rw [← hbeforeId.1, same.workItemId]
        have hdup : closedVisit x advance.result.endsAt = after := by
          refine List.inj_on_of_nodup_map hafter.visits_nodup hclosed hwritten ?_
          show x.id = after.id
          rw [same.id, ← hsame, hid]
        rw [← hdup] at hopen
        cases hopen
    obtain ⟨-, -, -, record, hrecord, -⟩ := htruth.records hemits
    exact ⟨record, heq.trans hrecord⟩

/-- The touch deltas of a tick are the labor that it credits, when no later visit stays in
progress. -/
theorem touchTotal_of_tick
    (htotal : ∀ visit ∈ store.scrum.statusVisits,
      touchTotal store.groundTruth visit = visit.creditedLaborMicroseconds)
    (hzero : ∀ visit, StaysInProgress store.state advance visit → visit.ordinal = 0) :
    ∀ visit ∈ store'.scrum.statusVisits,
      touchTotal store'.groundTruth visit = visit.creditedLaborMicroseconds := by
  have hafter := hcommitted.afterTick hrun.working hassembled
  have hcounted := ordinalsCounted_of_reachable hreach
  have hvalid := advance.state.scrum.complete.toConsistent
  obtain ⟨hcounters, hrisky⟩ :=
    applyRules_visits (evaluateDueRisks_working hrun.risks hrun.working) hcounted
  -- the records of a visit of the working state add up to the labor credited to it
  have hworking : ∀ w ∈ advance.state.scrum.statusVisits,
      touchTotal store.groundTruth w = w.creditedLaborMicroseconds := by
    intro w hw
    cases hrisky w hw with
    | kept old hmem hid hwork hcredited =>
      have hpath := (store.scrum.complete.toConsistent.visit_valid hmem).id
      rw [hid, (hvalid.visit_valid hw).id, Uuid.visit.injEq] at hpath
      rw [hcredited, ← htotal old hmem, touchTotal, touchTotal, progressRecords, progressRecords,
        progressRecordOf_congr hpath.1 hpath.2]
    | returned hnew hcredited =>
      rw [hcredited]
      exact touchTotal_of_new (recordsDated_of_reachable hreach) (hvalid.visit_valid hw).id hnew
  intro visit hvisit
  have hpath := (store'.scrum.complete.toConsistent.visit_valid hvisit).id
  have hsplit : touchTotal store'.groundTruth visit = touchTotal store.groundTruth visit +
      ((newRecords store store' visit).map (·.touchDeltaMicroseconds)).sum := by
    obtain ⟨added, hadded, -⟩ := appendDrafts_eq_ok hcommitted.groundTruth
    rw [newRecords, hadded, List.drop_left, touchTotal_append]
    rfl
  obtain ⟨hwritten, hother⟩ := newRecords_eq hreach hcommitted hrun hslice hassembled visit
  rcases (hafter.visits visit).mp hvisit with hmem | ⟨hmem, hnot⟩
  · obtain ⟨truth, htruth, heq⟩ := hwritten hmem
    by_cases hskip : 0 < visit.ordinal ∧ visit.lifecycle = .OPEN
    · -- the visit is new, since none stays in progress
      rw [hsplit, heq, htruth.skipped hskip]
      cases hrun.writtenVisit hmem with
      | progressed _ _ _ hstays =>
        have hordinal := hzero visit hstays
        omega
      | closed _ x _ _ hclosed =>
        rw [hclosed] at hskip
        cases hskip.2
      | entered before x hbefore same _ counter hcounter hscope _ _ hid _ hcredited =>
        have hnew := hcounted.not_mem_of_counter store.scrum.complete.toConsistent
          (show counter ∈ store.scrum.semanticCounters from hcounters ▸ hcounter) hscope
        rw [← hid] at hnew
        rw [hcredited, touchTotal_of_new (recordsDated_of_reachable hreach) hpath hnew]
        rfl
    · obtain ⟨original, horiginal, hid, record, hrecord, hdelta⟩ := htruth.records hskip
      have horiginalPath := (hvalid.visit_valid horiginal).id
      rw [hid, hpath, Uuid.visit.injEq] at horiginalPath
      have htouch := hworking original horiginal
      rw [touchTotal, progressRecords, ← progressRecordOf_congr horiginalPath.1 horiginalPath.2]
        at htouch
      rw [hsplit, heq, hrecord, touchTotal, progressRecords, htouch, List.map_singleton,
        List.sum_singleton, hdelta]
      ring
  · rw [hsplit, hother, hworking visit hmem]
    · simp
    · rintro x hx ⟨hwork, hordinal⟩
      refine hnot (List.mem_map.mpr ⟨x, hx, ?_⟩)
      rw [hafter.ids x hx, hpath, hwork, hordinal]

end tick

/-! ### Runs -/

/-- While every later visit that progresses completes, the touch deltas recorded for a visit add up
to its labor. -/
theorem touchTotal_of_reachableBy {store : TeamStore p}
    (h : (teamRuns p).ReachableBy (fun _ => True) CompletesProgress store) :
    ∀ visit ∈ store.scrum.statusVisits,
      touchTotal store.groundTruth visit = visit.creditedLaborMicroseconds := by
  refine run_induction (I := fun store => ∀ visit ∈ store.scrum.statusVisits,
    touchTotal store.groundTruth visit = visit.creditedLaborMicroseconds) h ?_ ?_ ?_
  · intro start draws context picked initial store _ hboot visit hvisit
    obtain ⟨item, -, -, activated, hactivated, hmem⟩ := (hboot.initialRows.visits visit).mp
      ((hboot.mem_rows Collection.statusVisits).mp hvisit)
    rw [(activateItem_first hactivated visit hmem).2.1, hboot.groundTruth]
    rfl
  · intro store store' _ htotal hprovision
    rw [hprovision.same]
    exact htotal
  · intro store event command store' hreach htotal hok _ hof hcommitted
    obtain ⟨added, hadded, hsublist, -⟩ := appendDrafts_eq_ok hcommitted.groundTruth
    cases hof with
    | tick request draws advance hevent _ hadvance hslice _ hassembled =>
      obtain ⟨outcome, finish, hrun⟩ := tickAdvance_eq_ok hadvance
      exact touchTotal_of_tick hreach hcommitted hrun hslice hassembled htotal fun visit hstays =>
        hok request draws advance visit hevent hadvance hstays
    | boundary instant transition _ hstep _ hstate _ _ _ hgroundTruth =>
      -- a boundary records no progress, and its new visits have no labor
      have hnone : ∀ visit, touchTotal added visit = 0 := fun visit =>
        touchTotal_eq_zero fun draft hdraft =>
          hstep.not_progress (hgroundTruth ▸ hsublist.subset hdraft)
      intro visit hvisit
      rw [hadded, touchTotal_append, hnone, add_zero]
      rcases boundary_visits hreach hcommitted hstep hstate hvisit with hold | ⟨hnew, hcredited, -⟩
      · exact htotal visit hold
      · rw [hcredited]
        exact touchTotal_of_new (recordsDated_of_reachable hreach)
          (store'.scrum.complete.toConsistent.visit_valid hvisit).id hnew
    | downtime hempty _ _ hgroundTruth =>
      have hnone : ∀ visit, touchTotal added visit = 0 := fun visit =>
        touchTotal_eq_zero fun draft hdraft record hpayload => by
          obtain ⟨startsAt, endsAt, hdowntime⟩ := hgroundTruth draft (hsublist.subset hdraft)
          rw [hdowntime] at hpayload
          cases hpayload
      intro visit hvisit
      rw [hadded, touchTotal_append, hnone, add_zero]
      exact htotal visit
        ((hcommitted.mem_of_empty Collection.statusVisits (fun _ _ _ => rfl) hempty).mp hvisit)

/-- A tick records every visit that its progress changed, once, exactly when every later visit that
progresses in it completes; in runs of such ticks the touch deltas recorded for a visit add up to
its credited labor. -/
theorem progress_recorded {store : TeamStore p} (hreach : (teamRuns p).Reachable store) :
    (∀ request draws advance store', ProgressTick store request draws advance store' →
      (RecordsChanges store advance store' ↔ CompletesProgress store (.tick request draws))) ∧
    ((teamRuns p).ReachableBy (fun _ => True) CompletesProgress store →
      ∀ visit ∈ store.scrum.statusVisits,
        touchTotal store.groundTruth visit = visit.creditedLaborMicroseconds) := by
  refine ⟨fun request draws advance store' htick => ?_, touchTotal_of_reachableBy⟩
  obtain ⟨command, hcommitted, hslice, hassembled⟩ := htick.committed (.of_reachable hreach)
  obtain ⟨outcome, finish, hrun⟩ := tickAdvance_eq_ok htick.advance_eq
  rw [recordsChanges_iff hreach hcommitted hrun hslice hassembled]
  constructor
  · intro hzero request' draws' advance' visit hevent hadvance hstays
    cases hevent
    rw [htick.advance_eq, Except.ok.injEq] at hadvance
    exact hzero visit (hadvance ▸ hstays)
  · exact fun hcompletes visit => hcompletes request draws advance visit rfl htick.advance_eq

/-! ### A code review -/

/-- The small team with four hours of work in the code review. -/
def reviewingDocument : BlueprintDocument :=
  { smallDocument [rejectionRule] 0 0 0 with
    timing := {
      profileName := "timing", profileVersion := 1, algorithmVersion := "1"
      entries := [
        dwellTiming "DEV" 0,
        { dwellTiming "CODE_REVIEW" 4 with touchMin := 4, touchMax := 4 },
        dwellTiming "QA" 0] } }

theorem reviewingDocument_accepted : reviewingDocument.validate = .ok () := by
  decide +kernel

def reviewingBlueprint : ResolvedTeamBlueprint where
  toBlueprintDocument := reviewingDocument
  accepted := reviewingDocument_accepted

/-- The later visits that a tick writes are closed or entered in it. -/
theorem completesProgress_of_written {store store' : TeamStore p} {request : TickRequest}
    {draws : DrawSource} {advance : RiskAdvance p}
    (htick : ProgressTick store request draws advance store')
    (hwritten : ∀ visit ∈ advance.result.visits, ∀ before ∈ openVisits advance.state,
      visit.id = before.id → visit.lifecycle = .OPEN → visit.ordinal = 0) :
    CompletesProgress store (.tick request draws) := by
  intro request' draws' advance' visit hevent hadvance hstays
  cases hevent
  rw [htick.advance_eq, Except.ok.injEq] at hadvance
  subst hadvance
  obtain ⟨outcome, finish, hrun⟩ := tickAdvance_eq_ok htick.advance_eq
  obtain ⟨hmem, before, hbefore, same⟩ := hrun.mem_of_stays hstays
  have hopen : visit.lifecycle = .OPEN := same.lifecycle.trans (mem_openVisits.mp hbefore).2
  exact hwritten visit hmem before hbefore same.id hopen

/-- The second tick of the small team completes the code review, and its four hours are recorded. -/
theorem progress_recorded_smallTeam :
    ∃ store advance store', runTeam utcPlatform (startAfter reviewingBlueprint 0)
        [tickUntil utcPlatform reviewingBlueprint 1] = .ok store ∧
      ProgressTick store (requestUntil reviewingBlueprint 7)
        (teamDraws utcPlatform reviewingBlueprint) advance store' ∧
      RecordsChanges store advance store' ∧
      (∀ visit ∈ store'.scrum.statusVisits,
        touchTotal store'.groundTruth visit = visit.creditedLaborMicroseconds) ∧
      ∃ visit ∈ store'.scrum.statusVisits,
        touchTotal store'.groundTruth visit = 4 * microsecondsPerHour := by
  -- an hour of development is followed by a review of four hours
  obtain ⟨review, h⟩ := exists_of_succeeds (do
    let first ← ensureBootstrapped (createdStore utcPlatform (startAfter reviewingBlueprint 0))
      (startAfter reviewingBlueprint 0).startedAt
    let development ← playTick first (requestUntil reviewingBlueprint 1)
      (teamDraws utcPlatform reviewingBlueprint)
    require (∀ visit ∈ development.1.result.visits, ∀ before ∈ openVisits development.1.state,
      visit.id = before.id → visit.lifecycle = .OPEN → visit.ordinal = 0) ""
    let played ← playTick development.2 (requestUntil reviewingBlueprint 7)
      (teamDraws utcPlatform reviewingBlueprint)
    require (∀ visit ∈ played.1.result.visits, ∀ before ∈ openVisits played.1.state,
      visit.id = before.id → visit.lifecycle = .OPEN → visit.ordinal = 0) ""
    next (fun visit => visit.creditedLaborMicroseconds = 4 * microsecondsPerHour)
      played.2.scrum.statusVisits) (by decide +kernel)
  simp only [bind_eq_ok, exists_unit, require_eq_ok] at h
  obtain ⟨first, hfirst, ⟨advance, store⟩, hdevelopment, hwritten, ⟨advance', store'⟩, hplayed,
    hwritten', hreview⟩ := h
  have htick := playTick_eq_ok hdevelopment
  have htick' := playTick_eq_ok hplayed
  have hrun : runTeam utcPlatform (startAfter reviewingBlueprint 0)
      [tickUntil utcPlatform reviewingBlueprint 1] = .ok store := by
    simp only [runTeam, bind_eq_ok]
    refine ⟨first, hfirst, ?_⟩
    simp only [List.foldlM_cons, List.foldlM_nil, bind_eq_ok, pure_eq_ok]
    exact ⟨store, htick.step, rfl⟩
  have hcompletes := completesProgress_of_written htick hwritten
  have hcompletes' := completesProgress_of_written htick' hwritten'
  have hreached : (teamRuns utcPlatform).ReachableBy (fun _ => True) CompletesProgress store' :=
    .step (.step (.start hfirst trivial) hcompletes htick.step) hcompletes' htick'.step
  have htotals := (progress_recorded hreached.reachable).2 hreached
  obtain ⟨hmem, hlabor⟩ := mem_of_next hreview
  exact ⟨store, advance', store', hrun, htick',
    ((progress_recorded (reachable_of_runTeam hrun)).1 _ _ _ _ htick').mpr hcompletes', htotals,
    review, hmem, (htotals review hmem).trans (of_decide_eq_true hlabor)⟩

/-! ### A visit without records -/

/-- An hour of code review is credited and recorded nowhere. -/
theorem laterProgress_unrecorded :
    ∃ store, runTeam utcPlatform (startAfter reviewingBlueprint 0)
        [tickUntil utcPlatform reviewingBlueprint 1] = .ok store ∧
      ∃ advance store', ProgressTick store (requestUntil reviewingBlueprint 1)
          (teamDraws utcPlatform reviewingBlueprint) advance store' ∧
        ¬ RecordsChanges store advance store' ∧ ∃ visit ∈ store'.scrum.statusVisits,
          visit.creditedLaborMicroseconds = microsecondsPerHour ∧
            progressRecords store'.groundTruth visit = [] := by
  obtain ⟨result, h⟩ := exists_of_succeeds (do
    let store ← runTeam utcPlatform (startAfter reviewingBlueprint 0)
      [tickUntil utcPlatform reviewingBlueprint 1]
    let played ← playTick store (requestUntil reviewingBlueprint 1)
      (teamDraws utcPlatform reviewingBlueprint)
    let after ← next (fun visit => visit.statusKey = "CODE_REVIEW") played.2.scrum.statusVisits
    let before ← next (fun visit => visit.id = after.id) (openVisits played.1.state)
    require (after ≠ before ∧ after.creditedLaborMicroseconds = microsecondsPerHour ∧
      newRecords store played.2 after = [] ∧ progressRecords played.2.groundTruth after = []) "")
    (by decide +kernel)
  simp only [bind_eq_ok, require_eq_ok] at h
  obtain ⟨store, hrun, played, hplayed, after, hafter, before, hbefore, hne, hlabor, hnew, hnone⟩ := h
  obtain ⟨hmem, -⟩ := mem_of_next hafter
  obtain ⟨hopen, hid⟩ := mem_of_next hbefore
  refine ⟨store, hrun, played.1, played.2, playTick_eq_ok hplayed, ?_, after, hmem, hlabor, hnone⟩
  intro hrecords
  obtain ⟨record, hrecord⟩ := hrecords before hopen after hmem (of_decide_eq_true hid).symm hne
  rw [hnew] at hrecord
  cases hrecord

end JiraSimulator
