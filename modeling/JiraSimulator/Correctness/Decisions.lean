import JiraSimulator.Correctness.VisitClaims

/-!
# Decisions of the risks

The decision about a closed review, and the entry decision about an external dependency, are due
while the cursor stands at the closing or at the entry of the visit.  A tick that ends where it
starts leaves the cursor there, and the next tick decides the review again; a dependency is decided
only by a tick that moves the cursor.

* `decisions_recorded_once`: in runs whose ticks do not start at the time of a recorded review
  decision, every decision is recorded once.
* `review_decided_twice`: a run of ticks that end where they start records decisions again.
-/

namespace JiraSimulator

open Library Library.Outcome Library.Transition ScrumCollections

variable {p : Platform}

/-! ### Recorded decisions -/

/-- The stochastic decision about a visit that a draft records, as its rule and the visit: the
decision about a closed review, or the entry decision about an external dependency. -/
def decisionOf (draft : GroundTruthRecordDraft) : Option (String × Uuid) :=
  match draft.semanticKey, draft.payload with
  | .risk _ _ _ rule entity _, .riskEvaluation record =>
    if rule = "REVIEW_REJECTION" ∨ (rule = "EXTERNAL_DEPENDENCY" ∧ record.draw.isSome) then
      some (rule, entity)
    else none
  | _, _ => none

/-- The decisions that the ledger records, in its order. -/
def decisions (ledger : List GroundTruthRecordDraft) : List (String × Uuid) :=
  ledger.filterMap decisionOf

theorem decisionOf_of_payload {draft : GroundTruthRecordDraft}
    (h : ∀ record, draft.payload ≠ .riskEvaluation record) : decisionOf draft = none := by
  unfold decisionOf
  split
  · rename_i hpayload
    exact absurd hpayload (h _)
  · rfl

/-- A downtime records no decision. -/
theorem decisionOf_of_downtime {draft : GroundTruthRecordDraft}
    (h : ∃ startsAt endsAt, draft.payload = .downtime startsAt endsAt) :
    decisionOf draft = none := by
  obtain ⟨startsAt, endsAt, hdowntime⟩ := h
  refine decisionOf_of_payload fun record hpayload => ?_
  rw [hdowntime] at hpayload
  cases hpayload

/-- The visit for which a state is due to take a decision. -/
inductive DueDecision (state : LiveTeamState p) (asOf : ℤ) (visits : List StatusVisitState) :
    String × Uuid → Prop
  | review (visit : StatusVisitState) (hmem : visit ∈ visits) (hclosed : visit.lifecycle = .CLOSED)
      (hclosedAt : visit.closedAt = some (cursor state)) :
      DueDecision state asOf visits ("REVIEW_REJECTION", visit.id)
  | dependency (visit : StatusVisitState) (hmem : visit ∈ visits)
      (hentered : visit.enteredAt = cursor state) (hlt : cursor state < asOf) :
      DueDecision state asOf visits ("EXTERNAL_DEPENDENCY", visit.id)

/-- A risk evaluation takes the decisions that are due in one of its working states. -/
structure TakenDecision (state : LiveTeamState p) (asOf : ℤ) (draws : DrawSource)
    (draft : GroundTruthRecordDraft) (decision : String × Uuid) : Prop where
  key : draft.semanticKey = .risk state.aggregate.runtime.teamId state.aggregate.runtime.runId
    state.aggregate.runtime.version decision.1 decision.2 (cursor state)
  occurredAt : draft.occurredAt = cursor state
  due : ∃ before rest reached, state.aggregate.blueprint.risks.rules = before ++ rest ∧
    applyRules asOf draws { working := state, records := {} } before = .ok reached ∧
    DueDecision state asOf reached.working.scrum.statusVisits decision

theorem evaluateDueRisks_decision {state : LiveTeamState p} {asOf : ℤ} {draws : DrawSource}
    {risks : RiskRecords p} (h : evaluateDueRisks state asOf draws = .ok risks)
    {draft : GroundTruthRecordDraft} (hdraft : draft ∈ risks.groundTruth)
    {decision : String × Uuid} (hdecision : decisionOf draft = some decision) :
    TakenDecision state asOf draws draft decision := by
  obtain ⟨before, rule, after, reached, evidence, hrules, hreached, hdecides, rfl⟩ :=
    evaluateDueRisks_groundTruth h hdraft
  have hagg : reached.working.aggregate = state.aggregate :=
    ((workingState_init state).applyRules hreached).1
  have hcursor : cursor reached.working = cursor state := by
    unfold cursor
    rw [hagg]
  have hrule : evidence.rule = rule := hdecides.rule
  simp only [decisionOf, decisionTruth, riskKey, evidencePayload, hrule, hagg] at hdecision
  -- only reviews and first draws of a dependency are decisions
  by_cases hkind : rule.key = "REVIEW_REJECTION" ∨
      (rule.key = "EXTERNAL_DEPENDENCY" ∧ evidence.draw.isSome = true)
  · rw [if_pos hkind] at hdecision
    cases hdecision
    have hdue : evidence.occurredAt = cursor state ∧
        DueDecision state asOf reached.working.scrum.statusVisits (rule.key, evidence.entityId) := by
      rcases hkind with hkey | ⟨hkey, hdraw⟩
      · obtain ⟨-, review, work, decision, hverdict, rfl⟩ := hdecides.review hkey
        obtain ⟨-, hentity, hoccurred⟩ := reviewDecision_evidence hverdict.decided
        have hdue := hverdict.due
        simp only [reviewDue, Bool.and_eq_true, decide_eq_true_eq, hcursor] at hdue
        rw [hkey, hentity]
        exact ⟨hoccurred.trans hcursor, .review review hverdict.mem hdue.1.1.1 hdue.1.2⟩
      · obtain ⟨hlt, visit, hmem, hentity, hoccurred, hentered⟩ := hdecides.dependency hkey
        rw [hkey, hentity]
        exact ⟨hoccurred.trans hcursor, .dependency visit (mem_openVisits.mp hmem).1
          ((hentered hdraw).trans hcursor) (hcursor ▸ hlt)⟩
    refine ⟨?_, hdue.1, before, rule :: after, reached, hrules, hreached, hdue.2⟩
    show riskKey reached.working evidence = _
    rw [riskKey, hagg, hrule, hdue.1]
  · rw [if_neg hkind] at hdecision
    cases hdecision

/-! ### The rows of the recorded decisions -/

/-- The rows tell that a decision was taken: the review was closed at its record, and the visit of a
dependency was entered before the cursor. -/
def DecisionRow (store : TeamStore p) (draft : GroundTruthRecordDraft) : Prop :=
  (∀ entity, decisionOf draft = some ("REVIEW_REJECTION", entity) →
    ∃ visit ∈ store.scrum.statusVisits, visit.id = entity ∧ visit.lifecycle = .CLOSED ∧
      visit.closedAt = some draft.occurredAt) ∧
  ∀ entity, decisionOf draft = some ("EXTERNAL_DEPENDENCY", entity) →
    ∃ visit ∈ store.scrum.statusVisits, visit.id = entity ∧
      visit.enteredAt < cursor store.state

/-- The rows still tell it when the visits stay and the cursor does not go back. -/
theorem DecisionRow.mono {store store' : TeamStore p} {draft : GroundTruthRecordDraft}
    (h : DecisionRow store draft)
    (hstay : StaysVisits store.scrum.toScrumCollections store'.scrum.toScrumCollections)
    (hle : cursor store.state ≤ cursor store'.state) : DecisionRow store' draft := by
  constructor
  · intro entity hdecision
    obtain ⟨visit, hvisit, hid, hclosed, hclosedAt⟩ := h.1 entity hdecision
    obtain ⟨visit', hvisit', hstays⟩ := hstay visit hvisit
    obtain rfl : visit' = visit := hstays.closed hclosed
    exact ⟨visit', hvisit', hid, hclosed, hclosedAt⟩
  · intro entity hdecision
    obtain ⟨visit, hvisit, hid, hlt⟩ := h.2 entity hdecision
    obtain ⟨visit', hvisit', hstays⟩ := hstay visit hvisit
    refine ⟨visit', hvisit', hstays.id.trans hid, ?_⟩
    rw [hstays.enteredAt]
    omega

/-- The ledger of a run: its keys are apart, the rows tell its decisions, and each is recorded
once. -/
structure DecidedOnce (store : TeamStore p) : Prop where
  keys : (store.groundTruth.map (·.semanticKey)).Nodup
  rows : ∀ draft ∈ store.groundTruth, DecisionRow store draft
  once : (decisions store.groundTruth).Nodup

/-- No recorded review decision was taken at the cursor. -/
def ReviewsBehind (store : TeamStore p) : Prop :=
  ∀ draft ∈ store.groundTruth, ∀ decision ∈ decisionOf draft,
    decision.1 = "REVIEW_REJECTION" → draft.occurredAt ≠ cursor store.state

instance (store : TeamStore p) : Decidable (ReviewsBehind store) :=
  inferInstanceAs (Decidable (∀ draft ∈ store.groundTruth, ∀ decision ∈ decisionOf draft,
    decision.1 = "REVIEW_REJECTION" → draft.occurredAt ≠ cursor store.state))

/-- A tick that crosses no sprint boundary does not start at the time of a recorded review
decision. -/
def StartsAfterReviews (store : TeamStore p) (event : TeamEvent) : Prop :=
  ∀ request draws transition, event = .tick request draws →
    crossSprintBoundary store.state (cursor store.state) = .ok transition →
    transition.activity = [] → ReviewsBehind store

/-- A decision that is due in a working state of a tick has not been recorded. -/
theorem DecidedOnce.not_recorded {store : TeamStore p} {asOf : ℤ} {draws : DrawSource}
    {draft : GroundTruthRecordDraft} {decision : String × Uuid}
    (hreach : (teamRuns p).Reachable store) (hdecided : DecidedOnce store)
    (hbehind : ReviewsBehind store)
    (htaken : TakenDecision store.state asOf draws draft decision) :
    decision ∉ decisions store.groundTruth := by
  intro hmem
  obtain ⟨old, hold, hdecision⟩ := List.mem_filterMap.mp hmem
  obtain ⟨before, rest, reached, hrules, hreached, hdue⟩ := htaken.due
  have hcounted := ordinalsCounted_of_reachable hreach
  have hkeys := store.aggregate.blueprint.ruleKeys_nodup
  -- the rules before this one have other keys, so they leave the visit
  have hstay : StaysVisits store.scrum.toScrumCollections
      reached.working.scrum.toScrumCollections := by
    have hnone : applyRules asOf draws { working := store.state, records := {} } [] =
        .ok { working := store.state, records := {} } := rfl
    refine applyRules_stay hnone hreached hcounted ?_
    rw [show store.aggregate.blueprint.risks.rules = before ++ rest from hrules,
      List.map_append] at hkeys
    exact (List.nodup_append.mp hkeys).1
  have hconsistent := reached.working.scrum.complete.toConsistent
  cases hdue with
  | review visit hvisit hclosed hclosedAt =>
    -- the review was closed before the cursor, and this one is closed at it
    obtain ⟨row, hrow, hid, hrowClosed, hrowAt⟩ := (hdecided.rows old hold).1 _ hdecision
    obtain ⟨row', hrow', hstays⟩ := hstay row hrow
    obtain rfl : row' = row := hstays.closed hrowClosed
    obtain rfl : row' = visit :=
      Collection.statusVisits.eq_of_key_eq hconsistent hrow' hvisit hid
    rw [hrowAt] at hclosedAt
    exact hbehind old hold _ hdecision rfl (Option.some.inj hclosedAt)
  | dependency visit hvisit hentered hlt =>
    -- the visit was entered before the cursor, and this one is entered at it
    obtain ⟨row, hrow, hid, hrowLt⟩ := (hdecided.rows old hold).2 _ hdecision
    obtain ⟨row', hrow', hstays⟩ := hstay row hrow
    obtain rfl : row' = visit :=
      Collection.statusVisits.eq_of_key_eq hconsistent hrow' hvisit (hstays.id.trans hid)
    rw [← hstays.enteredAt, hentered] at hrowLt
    exact lt_irrefl _ hrowLt

/-- Decisions that are recorded under different keys are different, when a decision has one key. -/
theorem decisions_nodup_of_keys {ledger : List GroundTruthRecordDraft}
    (hkeys : (ledger.map (·.semanticKey)).Nodup)
    (hsame : ∀ a ∈ ledger, ∀ b ∈ ledger, ∀ decision, decisionOf a = some decision →
      decisionOf b = some decision → a.semanticKey = b.semanticKey) :
    (decisions ledger).Nodup := by
  unfold decisions
  rw [List.Nodup, List.pairwise_filterMap]
  have hpairwise : ledger.Pairwise fun a b => a.semanticKey ≠ b.semanticKey :=
    List.pairwise_map.mp hkeys
  refine hpairwise.imp_of_mem ?_
  intro a b ha hb hne decision hdecision decision' hdecision' heq
  subst heq
  exact hne (hsame a ha b hb decision hdecision hdecision')

/-! ### One tick -/

theorem tickSlice_decision {request : TickRequest} {advance : RiskAdvance p}
    {slice : TickSliceCommit} (h : tickSlice request advance = .ok slice)
    {draft : GroundTruthRecordDraft} (hdraft : draft ∈ slice.groundTruth)
    {decision : String × Uuid} (hdecision : decisionOf draft = some decision) :
    draft ∈ advance.risks.groundTruth := by
  obtain ⟨truths, htruths, hall⟩ := tickSlice_groundTruth h
  rw [htruths, List.mem_append] at hdraft
  rcases hdraft with hprogress | hrisk
  · -- the progress of a visit is no decision
    exfalso
    obtain ⟨truth, htruth, hmem⟩ := List.mem_flatten.mp hprogress
    obtain ⟨x, -, hxtruth⟩ := forall₂_exists_left hall htruth
    by_cases hskip : 0 < x.ordinal ∧ x.lifecycle = .OPEN
    · rw [hxtruth.skipped hskip] at hmem
      cases hmem
    · obtain ⟨-, -, -, draft', record, rfl, -, hpayload, -⟩ := hxtruth.recorded hskip
      rw [List.mem_singleton.mp hmem, decisionOf_of_payload] at hdecision
      · cases hdecision
      · intro other hother
        rw [hpayload] at hother
        cases hother
  · exact hrisk

section tick

variable {store store' : TeamStore p} {command : AuthoritativeTickSliceCommit p}
  {request : TickRequest} {draws : DrawSource} {advance : RiskAdvance p} {outcome : SegmentsOutcome}
  {finish : StatusVisitState → FinishedVisit}
  (hreach : (teamRuns p).Reachable store) (hcommitted : Committed store command store')
  (hrun : TickRun store.state draws advance outcome finish)
  (hassembled : Assembled command.liveSlice advance command)
  (htime : cursor store'.state = advance.result.endsAt)

include hreach hcommitted hrun hassembled htime

/-- After a tick the rows tell the decisions that it took. -/
theorem TakenDecision.row {draft : GroundTruthRecordDraft} {decision : String × Uuid}
    (htaken : TakenDecision store.state advance.result.endsAt draws draft decision)
    (hdecision : decisionOf draft = some decision) : DecisionRow store' draft := by
  obtain ⟨before, rest, reached, hrules, hreached, hdue⟩ := htaken.due
  -- the rest of the tick keeps the visit that the decision was about
  have hstay : StaysVisits reached.working.scrum.toScrumCollections
      store'.scrum.toScrumCollections := by
    have hprogress := evaluateDueRisks_working hrun.risks hrun.working
    simp only [applyRules, hrules, List.foldlM_append, bind_eq_ok] at hprogress
    obtain ⟨reached', hreached', hrest⟩ := hprogress
    obtain rfl : reached = reached' := Except.ok.inj (hreached.symm.trans hreached')
    intro visit hvisit
    obtain ⟨middle, hmiddle, hfirst⟩ :=
      applyRules_stay hreached hrest (ordinalsCounted_of_reachable hreach)
        (hrules ▸ store.aggregate.blueprint.ruleKeys_nodup) visit hvisit
    obtain ⟨visit', hvisit', hsecond⟩ :=
      hrun.progress_stays hreach hcommitted hassembled middle hmiddle
    exact ⟨visit', hvisit', hfirst.trans hsecond⟩
  cases hdue with
  | review visit hvisit hclosed hclosedAt =>
    obtain ⟨visit', hvisit', hstays⟩ := hstay visit hvisit
    obtain rfl : visit' = visit := hstays.closed hclosed
    refine ⟨fun entity hentity => ?_, fun entity hentity => ?_⟩
    · rw [hdecision, Option.some.injEq, Prod.mk.injEq] at hentity
      exact ⟨visit', hvisit', hentity.2, hclosed, by rw [hclosedAt, htaken.occurredAt]⟩
    · rw [hdecision, Option.some.injEq, Prod.mk.injEq] at hentity
      exact absurd hentity.1 (by decide)
  | dependency visit hvisit hentered hlt =>
    obtain ⟨visit', hvisit', hstays⟩ := hstay visit hvisit
    refine ⟨fun entity hentity => ?_, fun entity hentity => ?_⟩
    · rw [hdecision, Option.some.injEq, Prod.mk.injEq] at hentity
      exact absurd hentity.1 (by decide)
    · rw [hdecision, Option.some.injEq, Prod.mk.injEq] at hentity
      refine ⟨visit', hvisit', hstays.id.trans hentity.2, ?_⟩
      rw [hstays.enteredAt, hentered, htime]
      exact hlt

end tick

/-! ### Runs -/

theorem BoundaryStep.no_decision {state : LiveTeamState p} {boundary : ℤ}
    {transition : SprintTransition p} (h : BoundaryStep state boundary transition)
    {draft : GroundTruthRecordDraft} (hdraft : draft ∈ transition.groundTruth) :
    decisionOf draft = none := by
  refine decisionOf_of_payload fun record hpayload => ?_
  cases h with
  | quiet h =>
    subst h
    cases hdraft
  | activates =>
    rename_i h
    subst h
    rw [List.mem_singleton.mp hdraft] at hpayload
    cases hpayload
  | rolls =>
    rename_i h
    subst h
    rw [List.mem_singleton.mp hdraft] at hpayload
    cases hpayload

/-- The decisions of a command are new, have one key each, and are told by the rows after it. -/
structure NewDecisions (store store' : TeamStore p) (drafts : List GroundTruthRecordDraft) : Prop
    where
  fresh : ∀ draft ∈ drafts, ∀ decision, decisionOf draft = some decision →
    decision ∉ decisions store.groundTruth
  same : ∀ a ∈ drafts, ∀ b ∈ drafts, ∀ decision, decisionOf a = some decision →
    decisionOf b = some decision → a.semanticKey = b.semanticKey
  rows : ∀ draft ∈ drafts, DecisionRow store' draft

theorem newDecisions_of_none {store store' : TeamStore p} {drafts : List GroundTruthRecordDraft}
    (h : ∀ draft ∈ drafts, decisionOf draft = none) : NewDecisions store store' drafts where
  fresh draft hdraft decision hdecision := by
    rw [h draft hdraft] at hdecision
    cases hdecision
  same a ha b hb decision hdecision := by
    rw [h a ha] at hdecision
    cases hdecision
  rows draft hdraft := by
    constructor <;> intro entity hdecision <;> rw [h draft hdraft] at hdecision <;> cases hdecision

theorem CommandOf.newDecisions {store store' : TeamStore p} {event : TeamEvent}
    {command : AuthoritativeTickSliceCommit p} (hof : CommandOf store.state event command)
    (hreach : (teamRuns p).Reachable store) (hcommitted : Committed store command store')
    (hdecided : DecidedOnce store) (hok : StartsAfterReviews store event) :
    NewDecisions store store' command.liveSlice.groundTruth := by
  cases hof with
  | tick request draws advance hevent hquiet hadvance hslice htime hassembled =>
    obtain ⟨outcome, finish, hrun⟩ := tickAdvance_eq_ok hadvance
    obtain ⟨transition, hcross, hnone⟩ := hquiet
    have hbehind := hok request draws transition hevent hcross hnone
    have htaken : ∀ draft ∈ command.liveSlice.groundTruth, ∀ decision,
        decisionOf draft = some decision →
          TakenDecision store.state advance.result.endsAt draws draft decision :=
      fun draft hdraft decision hdecision =>
        evaluateDueRisks_decision hrun.risks (tickSlice_decision hslice hdraft hdecision) hdecision
    refine ⟨fun draft hdraft decision hdecision => ?_, fun a ha b hb decision hA hB => ?_,
      fun draft hdraft => ?_⟩
    · exact hdecided.not_recorded hreach hbehind (htaken draft hdraft decision hdecision)
    · rw [(htaken a ha decision hA).key, (htaken b hb decision hB).key]
    · cases hdecision : decisionOf draft with
      | none =>
        have hnone : NewDecisions store store' [draft] :=
          newDecisions_of_none (by simpa using hdecision)
        exact hnone.rows draft (List.mem_singleton_self _)
      | some decision =>
        exact (htaken draft hdraft decision hdecision).row hreach hcommitted hrun hassembled
          (hcommitted.runtime_eq.2.2.2.2.trans htime) hdecision
  -- a boundary and a downtime record no decision
  | boundary instant transition _ hstep _ _ _ _ _ hgroundTruth =>
    exact newDecisions_of_none fun draft hdraft => hstep.no_decision (hgroundTruth ▸ hdraft)
  | downtime _ _ _ hgroundTruth =>
    exact newDecisions_of_none fun draft hdraft =>
      decisionOf_of_downtime (hgroundTruth draft hdraft)

/-- A commit of new decisions records every decision once. -/
theorem Committed.decidedOnce {store store' : TeamStore p}
    {command : AuthoritativeTickSliceCommit p} (h : Committed store command store')
    (hkept : RuntimeKept store.state command)
    (hstay : StaysVisits store.scrum.toScrumCollections store'.scrum.toScrumCollections)
    (hnew : NewDecisions store store' command.liveSlice.groundTruth)
    (hdecided : DecidedOnce store) : DecidedOnce store' := by
  have hkeys := appendDrafts_nodup h.groundTruth hdecided.keys
  obtain ⟨added, hadded, hsublist, -⟩ := appendDrafts_eq_ok h.groundTruth
  have hle : cursor store.state ≤ cursor store'.state :=
    hkept.cursor_le.trans_eq h.runtime_eq.2.2.2.2.symm
  refine ⟨hkeys, fun draft hdraft => ?_, ?_⟩
  · rw [hadded, List.mem_append] at hdraft
    rcases hdraft with hold | hdraft
    · exact (hdecided.rows draft hold).mono hstay hle
    · exact hnew.rows draft (hsublist.subset hdraft)
  · rw [hadded, List.map_append] at hkeys
    have haddedOnce : (decisions added).Nodup :=
      decisions_nodup_of_keys (List.nodup_append.mp hkeys).2.1 fun a ha b hb =>
        hnew.same a (hsublist.subset ha) b (hsublist.subset hb)
    rw [hadded, decisions, List.filterMap_append]
    refine List.Nodup.append hdecided.once haddedOnce fun decision hold hdecision => ?_
    obtain ⟨draft, hdraft, hdecision⟩ := List.mem_filterMap.mp hdecision
    exact hnew.fresh draft (hsublist.subset hdraft) decision hdecision hold

theorem decidedOnce_of_reachableBy {store : TeamStore p}
    (h : (teamRuns p).ReachableBy (fun _ => True) StartsAfterReviews store) :
    DecidedOnce store := by
  refine run_induction h ?_ ?_ ?_
  · intro start draws context picked initial store _ hboot
    have hempty : store.groundTruth = [] := hboot.groundTruth
    constructor <;> rw [hempty] <;> simp [decisions]
  · intro store store' _ hdecided hprovision
    rw [hprovision.same]
    exact ⟨hdecided.keys, hdecided.rows, hdecided.once⟩
  · intro store event command store' hreach hdecided hok hkept hof hcommitted
    exact hcommitted.decidedOnce hkept (hcommitted.visits_stay hreach hof)
      (hof.newDecisions hreach hcommitted hdecided hok) hdecided

/-- In runs whose ticks do not start at the time of a recorded review decision, the committed slices
record every decision once, and a tick takes no decision that an earlier slice has recorded. -/
theorem decisions_recorded_once {store : TeamStore p}
    (h : (teamRuns p).ReachableBy (fun _ => True) StartsAfterReviews store) :
    (decisions store.groundTruth).Nodup ∧
    ∀ request draws advance store', StartsAfterReviews store (.tick request draws) →
      ProgressTick store request draws advance store' → ∀ draft ∈ advance.risks.groundTruth,
        ∀ decision, decisionOf draft = some decision → decision ∉ decisions store.groundTruth := by
  have hdecided := decidedOnce_of_reachableBy h
  refine ⟨hdecided.once, ?_⟩
  intro request draws advance store' hok htick draft hdraft decision hdecision
  obtain ⟨outcome, finish, hrun⟩ := tickAdvance_eq_ok htick.advance_eq
  obtain ⟨transition, hcross, hnone⟩ := htick.quiet
  exact hdecided.not_recorded h.reachable (hok request draws transition rfl hcross hnone)
    (evaluateDueRisks_decision hrun.risks hdraft hdecision)

/-! ### A small team -/

/-- The small team without rejections, with a code review of some hours. -/
def lenientDocument (review : ℚ) : BlueprintDocument :=
  smallDocument [{ rejectionRule with baseProbability := 0 }] 0 review review

theorem lenientDocument_accepted :
    ∀ review ∈ [(0 : ℚ), 2], (lenientDocument review).validate = .ok () := by
  decide +kernel

/-- Reviews of two hours. -/
def slowReviewBlueprint : ResolvedTeamBlueprint where
  toBlueprintDocument := lenientDocument 2
  accepted := lenientDocument_accepted 2 (by simp)

/-- Reviews that are complete when they are entered. -/
def fastReviewBlueprint : ResolvedTeamBlueprint where
  toBlueprintDocument := lenientDocument 0
  accepted := lenientDocument_accepted 0 (by simp)

/-- Three ticks over the code reviews: the last one decides them. -/
def slowReviewTicks : List TeamEvent :=
  List.replicate 3 (tickUntil utcPlatform slowReviewBlueprint 5)

/-- The decisions about the code reviews of the small team. -/
theorem decisions_recorded_once_smallTeam :
    ∃ store, runTeam utcPlatform (startAfter slowReviewBlueprint 0) slowReviewTicks = .ok store ∧
      decisions store.groundTruth ≠ [] ∧ (decisions store.groundTruth).Nodup := by
  obtain ⟨store, h⟩ := exists_of_succeeds (do
    let first ← ensureBootstrapped (createdStore utcPlatform (startAfter slowReviewBlueprint 0))
      (startAfter slowReviewBlueprint 0).startedAt
    require (ReviewsBehind first) ""
    let second ← stepTeam first (tickUntil utcPlatform slowReviewBlueprint 5)
    require (ReviewsBehind second) ""
    let third ← stepTeam second (tickUntil utcPlatform slowReviewBlueprint 5)
    require (ReviewsBehind third) ""
    let store ← stepTeam third (tickUntil utcPlatform slowReviewBlueprint 5)
    require (decisions store.groundTruth ≠ []) ""
    return store) (by decide +kernel)
  simp only [bind_eq_ok, exists_unit, require_eq_ok, pure_eq_ok] at h
  obtain ⟨first, hfirst, hbehind, second, hsecond, hbehind', third, hthird, hbehind'', store',
    hstore, hsome, rfl⟩ := h
  have hevents : slowReviewTicks.foldlM stepTeam first = .ok store' := by
    simp only [slowReviewTicks, List.replicate, List.foldlM_cons, List.foldlM_nil, bind_eq_ok,
      pure_eq_ok]
    exact ⟨second, hsecond, third, hthird, store', hstore, rfl⟩
  have hmeets : scriptMeets StartsAfterReviews first slowReviewTicks := by
    refine ⟨fun _ _ _ _ _ _ => hbehind, fun next hnext => ?_⟩
    obtain rfl := Except.ok.inj (hsecond.symm.trans hnext)
    refine ⟨fun _ _ _ _ _ _ => hbehind', fun next hnext => ?_⟩
    obtain rfl := Except.ok.inj (hthird.symm.trans hnext)
    exact ⟨fun _ _ _ _ _ _ => hbehind'', fun _ _ => trivial⟩
  have hrun : runTeam utcPlatform (startAfter slowReviewBlueprint 0) slowReviewTicks =
      .ok store' := by
    simp only [runTeam, bind_eq_ok]
    exact ⟨first, hfirst, hevents⟩
  exact ⟨store', hrun, hsome,
    (decisions_recorded_once (reachableBy_of_foldlM hevents hmeets (.start hfirst trivial))).1⟩

/-- A tick that ends where it starts takes the decisions about the reviews that the tick before it
closed there, and the next tick takes them again. -/
theorem review_decided_twice :
    ∃ store, runTeam utcPlatform (startAfter fastReviewBlueprint 0)
        (List.replicate 4 (tickUntil utcPlatform fastReviewBlueprint 1)) = .ok store ∧
      ¬ (decisions store.groundTruth).Nodup := by
  obtain ⟨store, h⟩ := exists_of_succeeds (do
    let store ← runTeam utcPlatform (startAfter fastReviewBlueprint 0)
      (List.replicate 4 (tickUntil utcPlatform fastReviewBlueprint 1))
    require (¬ (decisions store.groundTruth).Nodup) ""
    return store) (by decide +kernel)
  simp only [bind_eq_ok, exists_unit, require_eq_ok, pure_eq_ok] at h
  obtain ⟨store', hrun, hrepeated, rfl⟩ := h
  exact ⟨store', hrun, hrepeated⟩

end JiraSimulator
