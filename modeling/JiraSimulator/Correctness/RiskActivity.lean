import JiraSimulator.Correctness.RiskLedgers

/-!
# The activity of a risk evaluation

Every record of a risk handler is made by one decision of its rule, with one ground truth draft and
at most one activity draft.  Only the rule for long stays detects long stays, and only the one for
external dependencies starts them.

* `handler_decisions`: the records of a handler are those of single decisions.
* `evaluateDueRisks_activity`: the rule and the working state of each activity draft.
-/

namespace JiraSimulator

open Library Library.Outcome

variable {p : Platform}

/-- The activity of a decision. -/
def decisionActivity (state : LiveTeamState p) (batch : EvidenceBatch p) : ActivityEventDraft where
  semanticKey := riskKey state batch.evidence
  occurredAt := batch.evidence.occurredAt
  payload := .risk batch.evidence.rule.key batch.evidence.outcome batch.evidence.cause
  eventType := batch.eventType
  aggregateType := .RISK
  aggregateId := batch.evidence.entityId
  aggregateVersion := aggregateVersion state

/-- The records are none, or those of one decision of the rule. -/
inductive OneDecision (context : RiskContext p) (r : RiskRecords p) : Prop
  | none (h : r = {})
  | taken (batch : EvidenceBatch p) (h : r = evidenceRecords context.state batch)
      (hrule : batch.evidence.rule = context.rule)
      (hlongStay : batch.eventType = .LONG_STAY_DETECTED → context.rule.key = "LONG_STAY")
      (hstarted : batch.eventType = .EXTERNAL_DEPENDENCY_STARTED →
        context.rule.key = "EXTERNAL_DEPENDENCY")

theorem mem_evidenceRecords_activity {state : LiveTeamState p} {batch : EvidenceBatch p}
    {draft : ActivityEventDraft} : draft ∈ (evidenceRecords state batch).activity ↔
      batch.eventType ≠ .RISK_EVALUATED ∧ draft = decisionActivity state batch := by
  show draft ∈ (if batch.eventType = .RISK_EVALUATED then [] else
    [decisionActivity state batch]) ↔ _
  split_ifs with htype
  · simp [htype]
  · simp [htype]

/-! ### One record -/

section records

variable {context : RiskContext p} {r : RiskRecords p}

theorem longStayRecord_decision {visit : StatusVisitState} (hkey : context.rule.key = "LONG_STAY")
    (h : longStayRecord context visit = .ok r) : OneDecision context r := by
  simp only [longStayRecord, bind_eq_ok] at h
  obtain ⟨sample, -, multiplier, -, crossed, -, h⟩ := h
  cases crossed with
  | false =>
    simp only [Bool.false_eq_true, if_false, pure_eq_ok] at h
    exact .none h.symm
  | true =>
    simp only [if_true, bind_eq_ok, pure_eq_ok] at h
    obtain ⟨people, -, h⟩ := h
    exact .taken _ h.symm rfl (fun _ => hkey) nofun

theorem dueReviewRecords_decision {review : StatusVisitState}
    (h : dueReviewRecords context review = .ok r) : OneDecision context r := by
  simp only [dueReviewRecords, reviewRecords, bind_eq_ok] at h
  obtain ⟨work, -, decision, hdecision, h⟩ := h
  have hrule := (reviewDecision_evidence hdecision).1
  split_ifs at h
  · simp only [bind_eq_ok, pure_eq_ok] at h
    obtain ⟨returned, -, triple, -, written, -, h⟩ := h
    exact .taken _ h.symm hrule nofun nofun
  · exact .taken _ (pure_eq_ok.mp h).symm hrule nofun nofun

theorem cancellationDecision_rule {work : WorkItemState} {decision : CancellationDecision}
    (h : cancellationDecision context work = .ok decision) :
    decision.evidence.rule = context.rule := by
  simp only [cancellationDecision, bind_eq_ok, pure_eq_ok] at h
  obtain ⟨pair, -, visit, -, probability, -, target, -, projection, -, people, -, rfl⟩ := h
  rfl

theorem cancellationRecords_decision {work : WorkItemState}
    (h : cancellationRecords context work = .ok r) : OneDecision context r := by
  simp only [cancellationRecords, bind_eq_ok] at h
  obtain ⟨decision, hdecision, h⟩ := h
  have hrule := cancellationDecision_rule hdecision
  split_ifs at h
  · simp only [bind_eq_ok, pure_eq_ok] at h
    obtain ⟨written, -, h⟩ := h
    exact .taken _ h.symm hrule (by simp) (by simp)
  · exact .taken _ (pure_eq_ok.mp h).symm hrule (by simp) (by simp)

theorem dependencyRecords_decision {visit : StatusVisitState}
    (hkey : context.rule.key = "EXTERNAL_DEPENDENCY")
    (h : dependencyRecords context visit = .ok r) : OneDecision context r := by
  simp only [dependencyRecords, bind_eq_ok] at h
  obtain ⟨paused, -, h⟩ := h
  cases paused with
  | true =>
    simp only [if_true, pure_eq_ok] at h
    exact .none h.symm
  | false =>
    simp only [Bool.false_eq_true, if_false, bind_eq_ok] at h
    obtain ⟨wait, -, h⟩ := h
    by_cases hnone : max 0 (hoursToRoundedMicroseconds wait - visit.pauseMicroseconds) = 0 ∨
        context.asOf ≤ cursor context.state
    · rw [if_pos hnone, pure_eq_ok] at h
      exact .none h.symm
    rw [if_neg hnone] at h
    -- a wait that has begun goes on without a decision of its own
    by_cases hcontinue : visit.pauseMicroseconds ≠ 0
    · rw [if_pos hcontinue, dependencyContinuation] at h
      split_ifs at h
      · exact .none (Except.ok.inj h).symm
      · simp only [bind_eq_ok, pure_eq_ok] at h
        obtain ⟨blocked, -, work, -, people, -, written, -, h⟩ := h
        exact .taken _ h.symm rfl (by simp) (by simp)
    rw [if_neg hcontinue] at h
    -- a wait begins in the tick the visit was entered in
    by_cases hentered : visit.enteredAt ≠ cursor context.state
    · rw [if_pos hentered, pure_eq_ok] at h
      exact .none h.symm
    · simp only [if_neg hentered, dependencyEntry, bind_eq_ok] at h
      obtain ⟨decision, hdecision, h⟩ := h
      have hrule : decision.evidence.rule = context.rule := by
        simp only [dependencyDecision, bind_eq_ok, pure_eq_ok] at hdecision
        obtain ⟨work, -, probability, -, people, -, rfl⟩ := hdecision
        rfl
      split_ifs at h
      · simp only [bind_eq_ok, pure_eq_ok] at h
        obtain ⟨blocked, -, written, -, h⟩ := h
        exact .taken _ h.symm hrule (by simp) fun _ => hkey
      · exact .taken _ (pure_eq_ok.mp h).symm hrule (by simp) (by simp)

theorem unavailabilityDecision_rule {memberId : Uuid} {decision : UnavailabilityDecision}
    (h : unavailabilityDecision context memberId = .ok decision) :
    decision.evidence.rule = context.rule := by
  simp only [unavailabilityDecision, bind_eq_ok] at h
  obtain ⟨pair, -, factors, -, probability, -, duration, -, h⟩ := h
  split at h <;>
  · simp only [bind_eq_ok, pure_eq_ok] at h
    obtain ⟨overlay, -, rfl⟩ := h
    rfl

theorem unavailabilityRecords_decision {memberId : Uuid}
    (h : unavailabilityRecords context memberId = .ok r) : OneDecision context r := by
  simp only [unavailabilityRecords, bind_eq_ok, pure_eq_ok] at h
  obtain ⟨decision, hdecision, written, -, h⟩ := h
  refine .taken _ h.symm (unavailabilityDecision_rule hdecision) (fun htype => ?_) fun htype => ?_
  all_goals cases houtcome : decision.evidence.outcome <;> simp [houtcome] at htype

end records

/-! ### One rule -/

theorem decisions_of_collectRecords {α : Type} {record : α → Result (RiskRecords p)}
    {items : List α} {context : RiskContext p} {out : RiskRecords p}
    (h : collectRecords record items = .ok out)
    (hrecord : ∀ x r, record x = .ok r → OneDecision context r) :
    ∃ rs, Merged rs out ∧ ∀ r ∈ rs, OneDecision context r := by
  obtain ⟨rs, hall, hmerged⟩ := collectRecords_eq_ok h
  refine ⟨rs, hmerged, fun r hr => ?_⟩
  obtain ⟨x, -, hxr⟩ := forall₂_exists_left hall hr
  exact hrecord x r hxr

/-- The records of a handler are those of single decisions of its rule. -/
theorem handler_decisions {context : RiskContext p} {out : RiskRecords p}
    {handler : RiskContext p → Result (RiskRecords p)}
    (hhandler : handlerFor context.rule.key = some handler) (hout : handler context = .ok out) :
    ∃ rs, Merged rs out ∧ ∀ r ∈ rs, OneDecision context r := by
  have hempty : ∃ rs, Merged rs ({} : RiskRecords p) ∧ ∀ r ∈ rs, OneDecision context r :=
    ⟨[], .nil, by simp⟩
  -- a workday start is another instant of the evaluation, for the same rule and state
  have hboundary : ∀ boundary r, OneDecision { context with asOf := boundary } r →
      OneDecision context r := by
    rintro boundary r (h | ⟨batch, h, hrule, hlongStay, hstarted⟩)
    · exact .none h
    · exact .taken batch h hrule hlongStay hstarted
  obtain ⟨hkey, rfl⟩ | ⟨hkey, rfl⟩ | ⟨hkey, rfl⟩ | ⟨hkey, rfl⟩ | ⟨hkey, rfl⟩ :=
    handlerFor_eq_some hhandler
  · unfold longStay at hout
    split_ifs at hout
    · exact Except.ok.inj hout ▸ hempty
    · exact decisions_of_collectRecords hout fun visit r hr => longStayRecord_decision hkey hr
  · rcases reviewRejection_eq_ok hout with rfl | ⟨-, hcollect⟩
    · exact hempty
    · exact decisions_of_collectRecords hcollect fun review r hr => dueReviewRecords_decision hr
  · rcases cancellation_eq_ok hout with rfl | ⟨boundary, -, -, hcollect⟩
    · exact hempty
    · exact decisions_of_collectRecords hcollect fun work r hr =>
        hboundary boundary r (cancellationRecords_decision hr)
  · rcases externalDependency_eq_ok hout with rfl | hcollect
    · exact hempty
    · exact decisions_of_collectRecords hcollect fun visit r hr =>
        dependencyRecords_decision hkey hr
  · rcases memberUnavailability_eq_ok hout with rfl | ⟨boundary, -, -, hcollect⟩
    · exact hempty
    · exact decisions_of_collectRecords hcollect fun owner r hr =>
        hboundary boundary r (unavailabilityRecords_decision hr)

theorem handler_activity {context : RiskContext p} {out : RiskRecords p}
    {handler : RiskContext p → Result (RiskRecords p)}
    (hhandler : handlerFor context.rule.key = some handler) (hout : handler context = .ok out)
    {draft : ActivityEventDraft} (hdraft : draft ∈ out.activity) :
    ∃ batch, OneDecision context (evidenceRecords context.state batch) ∧
      draft = decisionActivity context.state batch := by
  obtain ⟨rs, hmerged, hdecisions⟩ := handler_decisions hhandler hout
  rw [hmerged.activity, List.mem_flatMap] at hdraft
  obtain ⟨r, hr, hdraft⟩ := hdraft
  rcases hdecisions r hr with rfl | ⟨batch, rfl, hrule, hlongStay, hstarted⟩
  · cases hdraft
  · exact ⟨batch, .taken batch rfl hrule hlongStay hstarted, (mem_evidenceRecords_activity.mp hdraft).2⟩

/-! ### One evaluation -/

/-- Every activity draft of a risk evaluation is that of a decision of one of its rules. -/
theorem evaluateDueRisks_activity {state : LiveTeamState p} {asOf : ℤ} {draws : DrawSource}
    {risks : RiskRecords p} (h : evaluateDueRisks state asOf draws = .ok risks)
    {draft : ActivityEventDraft} (hdraft : draft ∈ risks.activity) :
    ∃ working : LiveTeamState p, ∃ batch : EvidenceBatch p,
      working.aggregate = state.aggregate ∧ draft = decisionActivity working batch := by
  simp only [evaluateDueRisks, bind_eq_ok, pure_eq_ok] at h
  obtain ⟨progress, hprogress, rfl⟩ := h
  revert hdraft
  refine (foldlM_induction (motive := fun progress =>
    progress.working.aggregate = state.aggregate ∧ (draft ∈ progress.records.activity →
      ∃ working : LiveTeamState p, ∃ batch : EvidenceBatch p,
        working.aggregate = state.aggregate ∧ draft = decisionActivity working batch))
    hprogress ⟨rfl, fun hnone => absurd hnone List.not_mem_nil⟩ ?_).2
  rintro progress rule next - ⟨haggregate, ih⟩ hstep
  rcases applyRule_eq_ok hstep with rfl | ⟨handler, outcome, hhandler, hout, hmerge, hworking⟩
  · exact ⟨haggregate, ih⟩
  · refine ⟨(LiveTeamState.withWriteSet_eq_ok.mp hworking).1.trans haggregate, fun hmem => ?_⟩
    rw [(RiskRecords.merge_eq_ok hmerge).2.1, List.mem_append] at hmem
    rcases hmem with hold | hnew
    · exact ih hold
    · obtain ⟨batch, -, hbatch⟩ := @handler_activity p
        { state := progress.working, asOf, draws, rule } _ _ hhandler hout _ hnew
      exact ⟨progress.working, batch, haggregate, hbatch⟩

end JiraSimulator
