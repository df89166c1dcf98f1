import JiraSimulator.Correctness.ItemMoves

/-!
# When the records of a tick are made

Every record of a risk evaluation is made at the cursor, at the instant of the evaluation, or at the
start of a workday between them; the drafts of the visits are made at the end of the tick.  None of
their Jira intents depends on another one.
* `evaluateDueRisks_within`: all records of an evaluation.
* `tickSlice_within`: all drafts of a tick.
-/

namespace JiraSimulator

open Library Library.Outcome ScrumCollections

variable {p : Platform}

/-- The instant lies in the window. -/
abbrev InWindow (startsAt endsAt instant : ℤ) : Prop :=
  startsAt ≤ instant ∧ instant ≤ endsAt

/-- The records are made within a window, and their intents depend on nothing. -/
structure RiskRecords.Within (r : RiskRecords p) (startsAt endsAt : ℤ) : Prop where
  activity : ∀ draft ∈ r.activity, InWindow startsAt endsAt draft.occurredAt
  groundTruth : ∀ draft ∈ r.groundTruth, InWindow startsAt endsAt draft.occurredAt
  intents : ∀ draft ∈ r.projectionIntents, InWindow startsAt endsAt draft.occurredAt
  independent : ∀ draft ∈ r.projectionIntents, draft.dependsOn = []

variable {startsAt endsAt : ℤ}

theorem within_default : ({} : RiskRecords p).Within startsAt endsAt where
  activity := by simp
  groundTruth := by simp
  intents := by simp
  independent := by simp

theorem RiskRecords.Within.merge {left right out : RiskRecords p}
    (hleft : left.Within startsAt endsAt) (hright : right.Within startsAt endsAt)
    (h : left.merge right = .ok out) : out.Within startsAt endsAt := by
  obtain ⟨-, hactivity, htruth, hintents, -, -⟩ := RiskRecords.merge_eq_ok h
  constructor
  · rw [hactivity]
    exact List.forall_mem_append.mpr ⟨hleft.activity, hright.activity⟩
  · rw [htruth]
    exact List.forall_mem_append.mpr ⟨hleft.groundTruth, hright.groundTruth⟩
  · rw [hintents]
    exact List.forall_mem_append.mpr ⟨hleft.intents, hright.intents⟩
  · rw [hintents]
    exact List.forall_mem_append.mpr ⟨hleft.independent, hright.independent⟩

theorem within_of_collectRecords {α : Type} {record : α → Result (RiskRecords p)} {items : List α}
    {out : RiskRecords p} (h : collectRecords record items = .ok out)
    (hrecord : ∀ x r, record x = .ok r → r.Within startsAt endsAt) :
    out.Within startsAt endsAt := by
  refine foldlM_induction (motive := fun r => r.Within startsAt endsAt) h within_default ?_
  intro records x next _ hrecords hnext
  simp only [bind_eq_ok] at hnext
  obtain ⟨r, hr, hmerge⟩ := hnext
  exact hrecords.merge (hrecord x r hr) hmerge

/-! ### One record -/

/-- The records of a decision in the window, with an intent in the window. -/
theorem evidenceRecords_within {state : LiveTeamState p} {batch : EvidenceBatch p}
    (hevidence : InWindow startsAt endsAt batch.evidence.occurredAt)
    (hintent : ∀ draft, batch.projection = some draft →
      InWindow startsAt endsAt draft.occurredAt ∧ draft.dependsOn = []) :
    (evidenceRecords state batch).Within startsAt endsAt where
  activity draft hdraft := by
    simp only [evidenceRecords] at hdraft
    split_ifs at hdraft
    · cases hdraft
    · rw [List.mem_singleton.mp hdraft]
      exact hevidence
  groundTruth draft hdraft := by
    rw [List.mem_singleton.mp hdraft]
    exact hevidence
  intents draft hdraft := (hintent draft (Option.mem_toList.mp hdraft)).1
  independent draft hdraft := (hintent draft (Option.mem_toList.mp hdraft)).2

theorem outcomeIntent_within {context : RiskContext p} {workId : Uuid} {status : String}
    {outcome : Bool} {intent : Option ProjectionIntentDraft}
    (h : outcomeIntent context workId status outcome = .ok intent)
    (hasOf : InWindow startsAt endsAt context.asOf) : ∀ draft, intent = some draft →
      InWindow startsAt endsAt draft.occurredAt ∧ draft.dependsOn = [] := by
  intro draft hdraft
  subst hdraft
  simp only [outcomeIntent] at h
  split_ifs at h
  · simp only [transitionIntent, bind_eq_ok, pure_eq_ok] at h
    obtain ⟨_, ⟨status, -, rfl⟩, h⟩ := h
    obtain rfl := Option.some.inj h
    exact ⟨hasOf, rfl⟩
  · cases h

/-- Without an intent. -/
theorem within_of_none {draft : ProjectionIntentDraft} (h : none = some draft) :
    InWindow startsAt endsAt draft.occurredAt ∧ draft.dependsOn = [] := by
  cases h

section records

variable {context : RiskContext p} {r : RiskRecords p}

theorem longStayRecord_within {visit : StatusVisitState}
    (hasOf : InWindow startsAt endsAt context.asOf) (h : longStayRecord context visit = .ok r) :
    r.Within startsAt endsAt := by
  simp only [longStayRecord, bind_eq_ok] at h
  obtain ⟨sample, -, multiplier, -, crossed, -, h⟩ := h
  cases crossed with
  | false =>
    simp only [Bool.false_eq_true, if_false, pure_eq_ok] at h
    exact h ▸ within_default
  | true =>
    simp only [if_true, bind_eq_ok, pure_eq_ok] at h
    obtain ⟨people, -, rfl⟩ := h
    exact evidenceRecords_within hasOf fun _ => within_of_none

theorem dueReviewRecords_within {review : StatusVisitState}
    (hcursor : InWindow startsAt endsAt (cursor context.state))
    (h : dueReviewRecords context review = .ok r) : r.Within startsAt endsAt := by
  simp only [dueReviewRecords, reviewRecords, bind_eq_ok] at h
  obtain ⟨work, -, decision, hdecision, h⟩ := h
  simp only [reviewDecision, bind_eq_ok, exists_unit, pure_eq_ok] at hdecision
  obtain ⟨probability, -, target, -, -, step, -, people, -, projection, hprojection, rfl⟩ :=
    hdecision
  have hintent : ∀ draft, projection = some draft →
      InWindow startsAt endsAt draft.occurredAt ∧ draft.dependsOn = [] :=
    outcomeIntent_within hprojection hcursor
  split_ifs at h
  · simp only [bind_eq_ok, pure_eq_ok] at h
    obtain ⟨returned, -, triple, -, written, -, rfl⟩ := h
    exact evidenceRecords_within hcursor hintent
  · rw [pure_eq_ok] at h
    subst h
    exact evidenceRecords_within hcursor fun _ => within_of_none

theorem cancellationRecords_within {work : WorkItemState}
    (hasOf : InWindow startsAt endsAt context.asOf)
    (h : cancellationRecords context work = .ok r) : r.Within startsAt endsAt := by
  simp only [cancellationRecords, bind_eq_ok] at h
  obtain ⟨decision, hdecision, h⟩ := h
  simp only [cancellationDecision, bind_eq_ok, pure_eq_ok] at hdecision
  obtain ⟨pair, -, visit, -, probability, -, target, -, projection, hprojection, people, -, rfl⟩ :=
    hdecision
  have hintent : ∀ draft, projection = some draft →
      InWindow startsAt endsAt draft.occurredAt ∧ draft.dependsOn = [] :=
    outcomeIntent_within hprojection hasOf
  split_ifs at h
  · simp only [bind_eq_ok, pure_eq_ok] at h
    obtain ⟨written, -, rfl⟩ := h
    exact evidenceRecords_within hasOf hintent
  · rw [pure_eq_ok] at h
    subst h
    exact evidenceRecords_within hasOf fun _ => within_of_none

theorem dependencyRecords_within {visit : StatusVisitState}
    (hcursor : InWindow startsAt endsAt (cursor context.state))
    (h : dependencyRecords context visit = .ok r) : r.Within startsAt endsAt := by
  simp only [dependencyRecords, bind_eq_ok] at h
  obtain ⟨paused, -, h⟩ := h
  cases paused with
  | true =>
    simp only [if_true, pure_eq_ok] at h
    exact h ▸ within_default
  | false =>
    simp only [Bool.false_eq_true, if_false, bind_eq_ok] at h
    obtain ⟨wait, -, h⟩ := h
    by_cases hnone : max 0 (hoursToRoundedMicroseconds wait - visit.pauseMicroseconds) = 0 ∨
        context.asOf ≤ cursor context.state
    · rw [if_pos hnone, pure_eq_ok] at h
      exact h ▸ within_default
    rw [if_neg hnone] at h
    by_cases hcontinue : visit.pauseMicroseconds ≠ 0
    · rw [if_pos hcontinue, dependencyContinuation] at h
      split_ifs at h
      · exact Except.ok.inj h ▸ within_default
      · simp only [bind_eq_ok, pure_eq_ok] at h
        obtain ⟨blocked, -, work, -, people, -, written, -, rfl⟩ := h
        exact evidenceRecords_within hcursor fun _ => within_of_none
    rw [if_neg hcontinue] at h
    by_cases hentered : visit.enteredAt ≠ cursor context.state
    · rw [if_pos hentered, pure_eq_ok] at h
      exact h ▸ within_default
    · simp only [if_neg hentered, dependencyEntry, bind_eq_ok] at h
      obtain ⟨decision, hdecision, h⟩ := h
      -- everything that is recorded happens at the cursor
      have hoccurred : decision.evidence.occurredAt = cursor context.state := by
        simp only [dependencyDecision, bind_eq_ok, pure_eq_ok] at hdecision
        obtain ⟨work, -, probability, -, people, -, rfl⟩ := hdecision
        rfl
      rw [← hoccurred] at hcursor
      split_ifs at h
      · simp only [bind_eq_ok, pure_eq_ok] at h
        obtain ⟨blocked, -, written, -, rfl⟩ := h
        exact evidenceRecords_within hcursor fun _ => within_of_none
      · rw [pure_eq_ok] at h
        subst h
        exact evidenceRecords_within hcursor fun _ => within_of_none

theorem unavailabilityRecords_within {memberId : Uuid}
    (hasOf : InWindow startsAt endsAt context.asOf)
    (h : unavailabilityRecords context memberId = .ok r) : r.Within startsAt endsAt := by
  simp only [unavailabilityRecords, bind_eq_ok, pure_eq_ok] at h
  obtain ⟨decision, hdecision, written, -, rfl⟩ := h
  have hoccurred : decision.evidence.occurredAt = context.asOf := by
    simp only [unavailabilityDecision, bind_eq_ok] at hdecision
    obtain ⟨pair, -, factors, -, probability, -, duration, -, hdecision⟩ := hdecision
    split at hdecision <;>
    · simp only [bind_eq_ok, pure_eq_ok] at hdecision
      obtain ⟨overlay, -, rfl⟩ := hdecision
      rfl
  refine evidenceRecords_within ?_ fun _ => within_of_none
  show InWindow startsAt endsAt decision.evidence.occurredAt
  rw [hoccurred]
  exact hasOf

/-! ### One rule and one evaluation -/

/-- A rule makes its records between the cursor and the instant of the evaluation. -/
theorem handler_within {out : RiskRecords p} {handler : RiskContext p → Result (RiskRecords p)}
    (hle : cursor context.state ≤ context.asOf)
    (hhandler : handlerFor context.rule.key = some handler) (hout : handler context = .ok out) :
    out.Within (cursor context.state) context.asOf := by
  have hcursor : InWindow (cursor context.state) context.asOf (cursor context.state) :=
    ⟨le_refl _, hle⟩
  have hasOf : InWindow (cursor context.state) context.asOf context.asOf := ⟨hle, le_refl _⟩
  obtain ⟨hkey, rfl⟩ | ⟨hkey, rfl⟩ | ⟨hkey, rfl⟩ | ⟨hkey, rfl⟩ | ⟨hkey, rfl⟩ :=
    handlerFor_eq_some hhandler
  · unfold longStay at hout
    split_ifs at hout
    · exact Except.ok.inj hout ▸ within_default
    · exact within_of_collectRecords hout fun visit r hr => longStayRecord_within hasOf hr
  · rcases reviewRejection_eq_ok hout with rfl | ⟨-, hcollect⟩
    · exact within_default
    · exact within_of_collectRecords hcollect fun review r hr => dueReviewRecords_within hcursor hr
  · rcases cancellation_eq_ok hout with rfl | ⟨boundary, hboundary, -, hcollect⟩
    · exact within_default
    · obtain ⟨hstart, hend⟩ := workdayBoundary_eq_ok hboundary
      exact within_of_collectRecords hcollect fun work r hr =>
        cancellationRecords_within ⟨hstart, hend.le⟩ hr
  · rcases externalDependency_eq_ok hout with rfl | hcollect
    · exact within_default
    · exact within_of_collectRecords hcollect fun visit r hr => dependencyRecords_within hcursor hr
  · rcases memberUnavailability_eq_ok hout with rfl | ⟨boundary, hboundary, -, hcollect⟩
    · exact within_default
    · obtain ⟨hstart, hend⟩ := workdayBoundary_eq_ok hboundary
      exact within_of_collectRecords hcollect fun owner r hr =>
        unavailabilityRecords_within ⟨hstart, hend.le⟩ hr

end records

/-- All records of an evaluation are made between the cursor and the instant of the evaluation. -/
theorem evaluateDueRisks_within {state : LiveTeamState p} {asOf : ℤ} {draws : DrawSource}
    {risks : RiskRecords p} (hle : cursor state ≤ asOf)
    (h : evaluateDueRisks state asOf draws = .ok risks) : risks.Within (cursor state) asOf := by
  simp only [evaluateDueRisks, bind_eq_ok, pure_eq_ok] at h
  obtain ⟨progress, hprogress, rfl⟩ := h
  refine (foldlM_induction (motive := fun progress => progress.working.aggregate = state.aggregate ∧
    progress.records.Within (cursor state) asOf) hprogress ⟨rfl, within_default⟩ ?_).2
  rintro progress rule next - ⟨hagg, hwithin⟩ hstep
  rcases applyRule_eq_ok hstep with rfl | ⟨handler, outcome, hhandler, hout, hmerge, hworking⟩
  · exact ⟨hagg, hwithin⟩
  · have hcursor : cursor progress.working = cursor state := by
      unfold cursor
      rw [hagg]
    have hrule := @handler_within p { state := progress.working, asOf, draws, rule } _ _
      (hcursor.trans_le hle) hhandler hout
    rw [show cursor progress.working = cursor state from hcursor] at hrule
    exact ⟨(LiveTeamState.withWriteSet_eq_ok.mp hworking).1.trans hagg, hwithin.merge hrule hmerge⟩

/-! ### The drafts of a tick -/

/-- The drafts of one visit are made at the end of the tick, and its intent depends on nothing. -/
structure VisitDrafts.At (drafts : VisitDrafts) (endsAt : ℤ) : Prop where
  activity : ∀ draft ∈ drafts.activity, draft.occurredAt = endsAt
  groundTruth : ∀ draft ∈ drafts.groundTruth, draft.occurredAt = endsAt
  intents : ∀ draft ∈ drafts.projection, draft.occurredAt = endsAt ∧ draft.dependsOn = []

theorem visitDrafts_at {state : LiveTeamState p} {result : TickResult} {visit : StatusVisitState}
    {drafts : VisitDrafts} (h : visitDrafts state endsAt result visit = .ok drafts) :
    drafts.At endsAt := by
  unfold visitDrafts at h
  by_cases hskip : 0 < visit.ordinal ∧ visit.lifecycle = .OPEN
  · rw [if_pos hskip, pure_eq_ok] at h
    subst h
    exact ⟨by simp, by simp, by simp⟩
  · rw [if_neg hskip] at h
    simp only [bind_eq_ok] at h
    obtain ⟨before, -, original, -, summary, -, truth, htruth, h⟩ := h
    simp only [groundTruthDraft, bind_eq_ok, pure_eq_ok] at htruth
    obtain ⟨calendar, -, delta, -, timing, -, rfl⟩ := htruth
    split_ifs at h with hmoved
    · simp only [bind_eq_ok, pure_eq_ok] at h
      obtain ⟨projection, ⟨intent, hintent, rfl⟩, rfl⟩ := h
      simp only [projectionDraft, bind_eq_ok, pure_eq_ok] at hintent
      obtain ⟨status, -, rfl⟩ := hintent
      exact ⟨by simp [activityDraft], by simp, by simp⟩
    · simp only [bind_eq_ok, pure_eq_ok] at h
      obtain ⟨projection, rfl, rfl⟩ := h
      exact ⟨by simp [activityDraft], by simp, by simp⟩

/-- The drafts of a slice are made within a window, and its intents depend on nothing. -/
structure TickSliceCommit.Within (slice : TickSliceCommit) (startsAt endsAt : ℤ) : Prop where
  activity : ∀ draft ∈ slice.activity, InWindow startsAt endsAt draft.occurredAt
  groundTruth : ∀ draft ∈ slice.groundTruth, InWindow startsAt endsAt draft.occurredAt
  intents : ∀ draft ∈ slice.projectionIntents, InWindow startsAt endsAt draft.occurredAt
  independent : ∀ draft ∈ slice.projectionIntents, draft.dependsOn = []

/-- The drafts of the visits are made at the end of a tick, and those of the risks before. -/
theorem tickSlice_within {request : TickRequest} {advance : RiskAdvance p} {slice : TickSliceCommit}
    (hrisks : advance.risks.Within startsAt advance.result.endsAt)
    (hle : startsAt ≤ advance.result.endsAt) (h : tickSlice request advance = .ok slice) :
    slice.Within startsAt advance.result.endsAt := by
  simp only [tickSlice, liveSlice, ledgerDrafts, withRiskLedgers, bind_eq_ok, validated_eq_ok,
    pure_eq_ok] at h
  obtain ⟨live, ⟨drafts, ⟨visits, hvisits, rfl⟩, -, rfl⟩, -, rfl⟩ := h
  have hat : ∀ entry ∈ visits, entry.At advance.result.endsAt := by
    intro entry hentry
    obtain ⟨visit, -, hvisit⟩ := exists_of_mem_mapM hvisits hentry
    exact visitDrafts_at hvisit
  have hend : InWindow startsAt advance.result.endsAt advance.result.endsAt := ⟨hle, le_refl _⟩
  refine ⟨fun draft hdraft => ?_, fun draft hdraft => ?_, fun draft hdraft => ?_,
    fun draft hdraft => ?_⟩
  · rcases List.mem_append.mp hdraft with hdraft | hdraft
    · obtain ⟨entry, hentry, hdraft⟩ := List.mem_flatMap.mp hdraft
      rw [(hat entry hentry).activity draft hdraft]
      exact hend
    · exact hrisks.activity draft hdraft
  · rcases List.mem_append.mp hdraft with hdraft | hdraft
    · obtain ⟨entry, hentry, hdraft⟩ := List.mem_flatMap.mp hdraft
      rw [(hat entry hentry).groundTruth draft hdraft]
      exact hend
    · exact hrisks.groundTruth draft hdraft
  · rcases List.mem_append.mp hdraft with hdraft | hdraft
    · obtain ⟨entry, hentry, hdraft⟩ := List.mem_flatMap.mp hdraft
      rw [((hat entry hentry).intents draft hdraft).1]
      exact hend
    · exact hrisks.intents draft hdraft
  · rcases List.mem_append.mp hdraft with hdraft | hdraft
    · obtain ⟨entry, hentry, hdraft⟩ := List.mem_flatMap.mp hdraft
      exact ((hat entry hentry).intents draft hdraft).2
    · exact hrisks.independent draft hdraft

end JiraSimulator
