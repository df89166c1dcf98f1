import JiraSimulator.Correctness.RiskHandlers

/-!
# What a risk evaluation records

Every ground truth record of a risk evaluation is the record of one decision: `Decides` says which
decisions a rule takes in a state, and `evaluateDueRisks_groundTruth` finds the rule and the working
state of each record.
-/

namespace JiraSimulator

open Library Library.Outcome

variable {p : Platform}

/-- The ground truth of a decision. -/
def decisionTruth (state : LiveTeamState p) (evidence : DecisionEvidence) :
    GroundTruthRecordDraft where
  semanticKey := riskKey state evidence
  occurredAt := evidence.occurredAt
  payload := .riskEvaluation (evidencePayload state evidence)

/-- The rule takes the decision in the state: about a review that is due, or about an open visit
that is entered now or whose pause goes on, at the cursor in both cases. -/
structure Decides (context : RiskContext p) (evidence : DecisionEvidence) : Prop where
  rule : evidence.rule = context.rule
  review : context.rule.key = "REVIEW_REJECTION" → context.rule.trigger = "STATUS_EXITED" ∧
    ∃ review work decision, ReviewVerdict context review work decision ∧ evidence = decision.evidence
  dependency : context.rule.key = "EXTERNAL_DEPENDENCY" → cursor context.state < context.asOf ∧
    ∃ visit ∈ openVisits context.state, evidence.entityId = visit.id ∧
      evidence.occurredAt = cursor context.state ∧
      (evidence.draw.isSome = true → visit.enteredAt = cursor context.state)

/-- The records are those of decisions of the rule. -/
def Evidenced (context : RiskContext p) (r : RiskRecords p) : Prop :=
  ∀ draft ∈ r.groundTruth, ∃ evidence, Decides context evidence ∧
    draft = decisionTruth context.state evidence

theorem evidenced_default (context : RiskContext p) : Evidenced context {} := by
  simp [Evidenced]

theorem evidenced_of_decides {context : RiskContext p} {batch : EvidenceBatch p}
    (h : Decides context batch.evidence) :
    Evidenced context (evidenceRecords context.state batch) := by
  intro draft hdraft
  exact ⟨batch.evidence, h, List.mem_singleton.mp hdraft⟩

/-! ### One record -/

/-- A decision of a rule that is neither about reviews nor about dependencies. -/
theorem decides_of_other {context : RiskContext p} {evidence : DecisionEvidence}
    (hrule : evidence.rule = context.rule) (hreview : context.rule.key ≠ "REVIEW_REJECTION")
    (hdependency : context.rule.key ≠ "EXTERNAL_DEPENDENCY") : Decides context evidence where
  rule := hrule
  review h := absurd h hreview
  dependency h := absurd h hdependency

theorem longStayRecord_evidenced {context : RiskContext p} {visit : StatusVisitState}
    {r : RiskRecords p} (hkey : context.rule.key = "LONG_STAY")
    (h : longStayRecord context visit = .ok r) : Evidenced context r := by
  simp only [longStayRecord, bind_eq_ok] at h
  obtain ⟨sample, -, multiplier, -, crossed, -, h⟩ := h
  cases crossed with
  | false =>
    simp only [Bool.false_eq_true, if_false, pure_eq_ok] at h
    exact h ▸ evidenced_default context
  | true =>
    simp only [if_true, bind_eq_ok, pure_eq_ok] at h
    obtain ⟨people, -, rfl⟩ := h
    exact evidenced_of_decides (decides_of_other rfl (by rw [hkey]; decide) (by rw [hkey]; decide))

theorem reviewDecision_evidence {context : RiskContext p} {work : WorkItemState}
    {review : StatusVisitState} {decision : ReviewDecision}
    (h : reviewDecision context work review = .ok decision) :
    decision.evidence.rule = context.rule ∧ decision.evidence.entityId = review.id ∧
      decision.evidence.occurredAt = context.asOf := by
  simp only [reviewDecision, bind_eq_ok, exists_unit, pure_eq_ok] at h
  obtain ⟨probability, -, target, -, -, step, -, people, -, projection, -, rfl⟩ := h
  exact ⟨rfl, rfl, rfl⟩

/-- The records of a due review are those of its decision. -/
theorem dueReviewRecords_groundTruth {context : RiskContext p} {review : StatusVisitState}
    {work : WorkItemState} {decision : ReviewDecision} {r : RiskRecords p}
    (hverdict : ReviewVerdict context review work decision)
    (h : dueReviewRecords context review = .ok r) :
    r.groundTruth = [decisionTruth context.state decision.evidence] := by
  have hdecided : reviewDecision { context with asOf := cursor context.state } work review =
      .ok decision := hverdict.decided
  simp only [dueReviewRecords, hverdict.work_eq, ok_bind, reviewRecords, hdecided] at h
  cases houtcome : decision.evidence.outcome with
  | false =>
    simp only [houtcome, Bool.false_eq_true, if_false, pure_eq_ok] at h
    subst h
    rfl
  | true =>
    simp only [houtcome, if_true, bind_eq_ok, pure_eq_ok] at h
    obtain ⟨returned, -, triple, -, written, -, rfl⟩ := h
    rfl

theorem dueReviewRecords_evidenced {context : RiskContext p} {review : StatusVisitState}
    {r : RiskRecords p} (hkey : context.rule.key = "REVIEW_REJECTION")
    (htrigger : context.rule.trigger = "STATUS_EXITED")
    (hmem : review ∈ context.state.scrum.statusVisits)
    (hdue : reviewDue context.state context.asOf review = true)
    (h : dueReviewRecords context review = .ok r) : Evidenced context r := by
  obtain ⟨work, decision, hverdict, -⟩ := dueReviewRecords_eq_ok hmem hdue h
  have hdecides : Decides context decision.evidence := {
    rule := (reviewDecision_evidence hverdict.decided).1
    review := fun _ => ⟨htrigger, review, work, decision, hverdict, rfl⟩
    dependency := fun hother => absurd (hkey.symm.trans hother) (by decide) }
  intro draft hdraft
  rw [dueReviewRecords_groundTruth hverdict h, List.mem_singleton] at hdraft
  exact ⟨decision.evidence, hdecides, hdraft⟩

theorem cancellationRecords_evidenced {context : RiskContext p} {work : WorkItemState}
    {r : RiskRecords p} (hkey : context.rule.key = "CANCELLATION")
    (h : cancellationRecords context work = .ok r) : Evidenced context r := by
  simp only [cancellationRecords, bind_eq_ok] at h
  obtain ⟨decision, hdecision, h⟩ := h
  have hrule : decision.evidence.rule = context.rule := by
    simp only [cancellationDecision, bind_eq_ok, pure_eq_ok] at hdecision
    obtain ⟨pair, -, visit, -, probability, -, target, -, projection, -, people, -, rfl⟩ := hdecision
    rfl
  have hdecides := decides_of_other hrule (by rw [hkey]; decide) (by rw [hkey]; decide)
  split_ifs at h
  · simp only [bind_eq_ok, pure_eq_ok] at h
    obtain ⟨written, -, rfl⟩ := h
    exact evidenced_of_decides hdecides
  · rw [pure_eq_ok] at h
    subst h
    exact evidenced_of_decides hdecides

theorem dependencyRecords_evidenced {context : RiskContext p} {visit : StatusVisitState}
    {r : RiskRecords p} (hkey : context.rule.key = "EXTERNAL_DEPENDENCY")
    (hopen : visit ∈ openVisits context.state)
    (h : dependencyRecords context visit = .ok r) : Evidenced context r := by
  -- the rule is a dependency rule, so only its clause is asked
  have hdecides : ∀ evidence : DecisionEvidence, evidence.rule = context.rule →
      evidence.entityId = visit.id → cursor context.state < context.asOf →
      evidence.occurredAt = cursor context.state →
      (evidence.draw.isSome = true → visit.enteredAt = cursor context.state) →
      Decides context evidence := fun evidence hrule hentity hlt hoccurred hdraw => {
    rule := hrule
    review := fun hother => absurd (hkey.symm.trans hother) (by decide)
    dependency := fun _ => ⟨hlt, visit, hopen, hentity, hoccurred, hdraw⟩ }
  simp only [dependencyRecords, bind_eq_ok] at h
  obtain ⟨paused, -, h⟩ := h
  cases paused with
  | true =>
    simp only [if_true, pure_eq_ok] at h
    exact h ▸ evidenced_default context
  | false =>
    simp only [Bool.false_eq_true, if_false, bind_eq_ok] at h
    obtain ⟨wait, -, h⟩ := h
    -- nothing of the wait is left, or the window is empty
    by_cases hnone : max 0 (hoursToRoundedMicroseconds wait - visit.pauseMicroseconds) = 0 ∨
        context.asOf ≤ cursor context.state
    · rw [if_pos hnone, pure_eq_ok] at h
      exact h ▸ evidenced_default context
    have hlt : cursor context.state < context.asOf := not_le.mp fun hle => hnone (.inr hle)
    rw [if_neg hnone] at h
    by_cases hcontinue : visit.pauseMicroseconds ≠ 0
    · -- a continuation draws nothing
      rw [if_pos hcontinue, dependencyContinuation] at h
      split_ifs at h
      · exact Except.ok.inj h ▸ evidenced_default context
      · simp only [bind_eq_ok, pure_eq_ok] at h
        obtain ⟨blocked, -, work, -, people, -, written, -, rfl⟩ := h
        exact evidenced_of_decides (hdecides _ rfl rfl hlt rfl (by simp))
    rw [if_neg hcontinue] at h
    by_cases hentered : visit.enteredAt ≠ cursor context.state
    · rw [if_pos hentered, pure_eq_ok] at h
      exact h ▸ evidenced_default context
    · simp only [if_neg hentered, dependencyEntry, bind_eq_ok] at h
      obtain ⟨decision, hdecision, h⟩ := h
      -- the visit was entered at the cursor, so the draw is its first
      have hevidence : decision.evidence.rule = context.rule ∧
          decision.evidence.entityId = visit.id ∧
          decision.evidence.occurredAt = cursor context.state := by
        simp only [dependencyDecision, bind_eq_ok, pure_eq_ok] at hdecision
        obtain ⟨work, -, probability, -, people, -, rfl⟩ := hdecision
        exact ⟨rfl, rfl, rfl⟩
      have hdecision' := hdecides _ hevidence.1 hevidence.2.1 hlt hevidence.2.2 fun _ =>
        not_not.mp hentered
      split_ifs at h
      · simp only [bind_eq_ok, pure_eq_ok] at h
        obtain ⟨blocked, -, written, -, rfl⟩ := h
        exact evidenced_of_decides hdecision'
      · rw [pure_eq_ok] at h
        subst h
        exact evidenced_of_decides hdecision'

theorem unavailabilityRecords_evidenced {context : RiskContext p} {memberId : Uuid}
    {r : RiskRecords p} (hkey : context.rule.key = "MEMBER_UNAVAILABLE")
    (h : unavailabilityRecords context memberId = .ok r) : Evidenced context r := by
  simp only [unavailabilityRecords, bind_eq_ok, pure_eq_ok] at h
  obtain ⟨decision, hdecision, written, -, rfl⟩ := h
  have hrule : decision.evidence.rule = context.rule := by
    simp only [unavailabilityDecision, bind_eq_ok] at hdecision
    obtain ⟨pair, -, factors, -, probability, -, duration, -, hdecision⟩ := hdecision
    split at hdecision <;>
    · simp only [bind_eq_ok, pure_eq_ok] at hdecision
      obtain ⟨overlay, -, rfl⟩ := hdecision
      rfl
  exact evidenced_of_decides (decides_of_other hrule (by rw [hkey]; decide) (by rw [hkey]; decide))

/-! ### One rule -/

theorem collectRecords_groundTruth {α : Type} {record : α → Result (RiskRecords p)} {items : List α}
    {out : RiskRecords p} (h : collectRecords record items = .ok out)
    {draft : GroundTruthRecordDraft} (hdraft : draft ∈ out.groundTruth) :
    ∃ x ∈ items, ∃ r, record x = .ok r ∧ draft ∈ r.groundTruth := by
  obtain ⟨rs, hall, hmerged⟩ := collectRecords_eq_ok h
  rw [hmerged.groundTruth, List.mem_flatMap] at hdraft
  obtain ⟨r, hr, hdraft⟩ := hdraft
  obtain ⟨x, hx, hxr⟩ := forall₂_exists_left hall hr
  exact ⟨x, hx, r, hxr, hdraft⟩

/-- The loop over elements records decisions of the rule, at the instant of the evaluation or of a
workday start. -/
theorem evidenced_of_collectRecords {α : Type} {record : α → Result (RiskRecords p)}
    {items : List α} {context : RiskContext p} {out : RiskRecords p}
    (h : collectRecords record items = .ok out)
    (hrecord : ∀ x ∈ items, ∀ r, record x = .ok r → Evidenced context r) :
    Evidenced context out := by
  intro draft hdraft
  obtain ⟨x, hx, r, hr, hmem⟩ := collectRecords_groundTruth h hdraft
  exact hrecord x hx r hr draft hmem

/-- A decision at a workday start is one of the evaluation when it is about no review and no
dependency. -/
theorem Evidenced.of_boundary {context : RiskContext p} (boundary : ℤ) {r : RiskRecords p}
    (h : Evidenced { context with asOf := boundary } r)
    (hreview : context.rule.key ≠ "REVIEW_REJECTION")
    (hdependency : context.rule.key ≠ "EXTERNAL_DEPENDENCY") : Evidenced context r := by
  intro draft hdraft
  obtain ⟨evidence, hdecides, rfl⟩ := h draft hdraft
  exact ⟨evidence, decides_of_other hdecides.rule hreview hdependency, rfl⟩

theorem handler_evidenced {context : RiskContext p} {out : RiskRecords p}
    {handler : RiskContext p → Result (RiskRecords p)}
    (hhandler : handlerFor context.rule.key = some handler) (hout : handler context = .ok out) :
    Evidenced context out := by
  obtain ⟨hkey, rfl⟩ | ⟨hkey, rfl⟩ | ⟨hkey, rfl⟩ | ⟨hkey, rfl⟩ | ⟨hkey, rfl⟩ :=
    handlerFor_eq_some hhandler
  · unfold longStay at hout
    split_ifs at hout
    · exact Except.ok.inj hout ▸ evidenced_default context
    · exact evidenced_of_collectRecords hout fun visit _ r hr => longStayRecord_evidenced hkey hr
  · rcases reviewRejection_eq_ok hout with rfl | ⟨htrigger, hcollect⟩
    · exact evidenced_default context
    · refine evidenced_of_collectRecords hcollect fun review hreview r hr => ?_
      obtain ⟨hmem, hdue⟩ := List.mem_filter.mp hreview
      exact dueReviewRecords_evidenced hkey htrigger hmem hdue hr
  · rcases cancellation_eq_ok hout with rfl | ⟨boundary, -, -, hcollect⟩
    · exact evidenced_default context
    · refine Evidenced.of_boundary boundary ?_ (by rw [hkey]; decide)
        (by rw [hkey]; decide)
      exact evidenced_of_collectRecords hcollect fun work _ r hr =>
        cancellationRecords_evidenced hkey hr
  · rcases externalDependency_eq_ok hout with rfl | hcollect
    · exact evidenced_default context
    · exact evidenced_of_collectRecords hcollect fun visit hvisit r hr =>
        dependencyRecords_evidenced hkey hvisit hr
  · rcases memberUnavailability_eq_ok hout with rfl | ⟨boundary, -, -, hcollect⟩
    · exact evidenced_default context
    · refine Evidenced.of_boundary boundary ?_ (by rw [hkey]; decide)
        (by rw [hkey]; decide)
      exact evidenced_of_collectRecords hcollect fun owner _ r hr =>
        unavailabilityRecords_evidenced hkey hr

/-! ### One evaluation -/

/-- Every record of the rules is one of a rule of the list, taken in the working state before it. -/
theorem applyRules_groundTruth {asOf : ℤ} {draws : DrawSource} {progress progress' : RiskProgress p}
    {rules : List RiskRule} (h : applyRules asOf draws progress rules = .ok progress')
    {draft : GroundTruthRecordDraft} (hdraft : draft ∈ progress'.records.groundTruth) :
    draft ∈ progress.records.groundTruth ∨ ∃ before rule after reached evidence,
      rules = before ++ rule :: after ∧ applyRules asOf draws progress before = .ok reached ∧
      Decides { state := reached.working, asOf, draws, rule } evidence ∧
      draft = decisionTruth reached.working evidence := by
  refine foldlM_prefix_induction (motive := fun t => draft ∈ t.records.groundTruth →
    draft ∈ progress.records.groundTruth ∨ ∃ before rule after reached evidence,
      rules = before ++ rule :: after ∧ applyRules asOf draws progress before = .ok reached ∧
      Decides { state := reached.working, asOf, draws, rule } evidence ∧
      draft = decisionTruth reached.working evidence) h .inl ?_ hdraft
  intro before rule after t t' hrules hbefore ih hstep hmem
  rcases applyRule_eq_ok hstep with rfl | ⟨handler, outcome, hhandler, houtcome, hmerge, -⟩
  · exact ih hmem
  · rw [(RiskRecords.merge_eq_ok hmerge).2.2.1, List.mem_append] at hmem
    rcases hmem with hold | hnew
    · exact ih hold
    · obtain ⟨evidence, hdecides, rfl⟩ := handler_evidenced hhandler houtcome draft hnew
      exact .inr ⟨before, rule, after, t, evidence, hrules, hbefore, hdecides, rfl⟩

/-- Every record of a risk evaluation is the record of a decision of one of its rules. -/
theorem evaluateDueRisks_groundTruth {state : LiveTeamState p} {asOf : ℤ} {draws : DrawSource}
    {risks : RiskRecords p} (h : evaluateDueRisks state asOf draws = .ok risks)
    {draft : GroundTruthRecordDraft} (hdraft : draft ∈ risks.groundTruth) :
    ∃ before rule after reached evidence,
      state.aggregate.blueprint.risks.rules = before ++ rule :: after ∧
      applyRules asOf draws { working := state, records := {} } before = .ok reached ∧
      Decides { state := reached.working, asOf, draws, rule } evidence ∧
      draft = decisionTruth reached.working evidence := by
  simp only [evaluateDueRisks, bind_eq_ok, pure_eq_ok] at h
  obtain ⟨progress, hprogress, rfl⟩ := h
  rcases applyRules_groundTruth hprogress hdraft with hnone | hdecides
  · cases hnone
  · exact hdecides

end JiraSimulator
