import JiraSimulator.Correctness.ProgressLedger
import JiraSimulator.Correctness.RiskActivity
import JiraSimulator.Correctness.VisitPauses

/-!
# Waits for external dependencies in one evaluation

The rule for external dependencies looks at every open visit once.  A visit that waits already goes
on waiting, a visit that is entered now may begin to wait, and every wait is recorded with the time
that it adds to the pause.  The other rules neither record waits nor change a pause, whatever their
order.

* `dependencyRecords_step`: what the rule records for one visit.
* `evaluateDueRisks_waits`: the records and the pauses after a whole evaluation.
-/

namespace JiraSimulator

open Library Library.Outcome ScrumCollections

variable {p : Platform}

/-! ### The records about a visit -/

/-- The wait of the visit that the draft records, if it records one. -/
def waitRecordOf (visit : Uuid) (draft : GroundTruthRecordDraft) : Option ℤ :=
  match draft.semanticKey, draft.payload with
  | .risk _ _ _ rule entity _, .riskEvaluation record =>
    if rule = "EXTERNAL_DEPENDENCY" ∧ entity = visit then some record.waitDeltaMicroseconds
    else none
  | _, _ => none

/-- The waits of the `EXTERNAL_DEPENDENCY` records about a visit. -/
def waitRecords (ledger : List GroundTruthRecordDraft) (visit : Uuid) : List ℤ :=
  ledger.filterMap (waitRecordOf visit)

def waitTotal (ledger : List GroundTruthRecordDraft) (visit : Uuid) : ℤ :=
  (waitRecords ledger visit).sum

/-- The `EXTERNAL_DEPENDENCY_STARTED` events of a visit. -/
def startedEvents (ledger : List ActivityEventDraft) (visit : Uuid) : List ActivityEventDraft :=
  ledger.filter fun draft =>
    draft.eventType = .EXTERNAL_DEPENDENCY_STARTED && draft.aggregateId = visit

theorem waitRecords_append (ledger added : List GroundTruthRecordDraft) (visit : Uuid) :
    waitRecords (ledger ++ added) visit = waitRecords ledger visit ++ waitRecords added visit :=
  List.filterMap_append

theorem waitTotal_of_none {ledger : List GroundTruthRecordDraft} {visit : Uuid}
    (h : waitRecords ledger visit = []) : waitTotal ledger visit = 0 := by
  unfold waitTotal
  rw [h]
  rfl

theorem startedEvents_append (ledger added : List ActivityEventDraft) (visit : Uuid) :
    startedEvents (ledger ++ added) visit =
      startedEvents ledger visit ++ startedEvents added visit :=
  List.filter_append ..

/-- The ground truth of a decision records a wait of the visit that it is about, when it is one of
the rule for external dependencies. -/
theorem waitRecords_decisionTruth (state : LiveTeamState p) (evidence : DecisionEvidence)
    (visit : Uuid) : waitRecords [decisionTruth state evidence] visit =
      if evidence.rule.key = "EXTERNAL_DEPENDENCY" ∧ evidence.entityId = visit then
        [evidence.waitDeltaMicroseconds]
      else [] := by
  have hrecord : waitRecordOf visit (decisionTruth state evidence) =
      if evidence.rule.key = "EXTERNAL_DEPENDENCY" ∧ evidence.entityId = visit then
        some evidence.waitDeltaMicroseconds
      else none := rfl
  unfold waitRecords
  rw [List.filterMap_cons, hrecord]
  split_ifs <;> rfl

theorem waitRecords_evidenceRecords (state : LiveTeamState p) (batch : EvidenceBatch p)
    (visit : Uuid) : waitRecords (evidenceRecords state batch).groundTruth visit =
      if batch.evidence.rule.key = "EXTERNAL_DEPENDENCY" ∧ batch.evidence.entityId = visit then
        [batch.evidence.waitDeltaMicroseconds]
      else [] :=
  waitRecords_decisionTruth state batch.evidence visit

theorem startedEvents_evidenceRecords (state : LiveTeamState p) (batch : EvidenceBatch p)
    (visit : Uuid) : startedEvents (evidenceRecords state batch).activity visit =
      if batch.eventType = .EXTERNAL_DEPENDENCY_STARTED ∧ batch.evidence.entityId = visit then
        [decisionActivity state batch]
      else [] := by
  have hactivity : (evidenceRecords state batch).activity =
      if batch.eventType = .RISK_EVALUATED then [] else [decisionActivity state batch] := rfl
  rw [hactivity]
  by_cases htype : batch.eventType = .RISK_EVALUATED
  · rw [if_pos htype, if_neg (by rw [htype]; simp)]
    rfl
  · rw [if_neg htype]
    by_cases hstarted : batch.eventType = .EXTERNAL_DEPENDENCY_STARTED ∧
        batch.evidence.entityId = visit
    · rw [if_pos hstarted]
      simp [startedEvents, decisionActivity, hstarted]
    · rw [if_neg hstarted]
      simpa [startedEvents, decisionActivity] using hstarted

/-! ### One visit -/

/-- The rule lets visits wait for external dependencies. -/
structure DependencyRule (rule : RiskRule) : Prop where
  key : rule.key = "EXTERNAL_DEPENDENCY"
  trigger : rule.trigger = "STATUS_ENTERED"

/-- The `total_wait` of a rule. -/
def totalWait (rule : RiskRule) : Result ℤ :=
  hoursToRoundedMicroseconds <$> number rule "wait_hours" none

/-- The part of a wait that is left for a pause and fits into a duration. -/
def waitWithin (wait pause duration : ℤ) : ℤ :=
  min (max 0 (wait - pause)) (roundedMicroseconds duration)

/-- What the rule for external dependencies does to one visit. -/
inductive DependencyStep (context : RiskContext p) (visit : StatusVisitState)
    (r : RiskRecords p) : Prop
  | idle (h : r = {})
      (hdone : visit.pauseMicroseconds ≠ 0 → intrinsicallyPaused context.state visit = .ok false →
        cursor context.state < context.asOf → ∃ wait, totalWait context.rule = .ok wait ∧
          waitWithin wait visit.pauseMicroseconds (context.asOf - cursor context.state) = 0)
  | declined (batch : EvidenceBatch p) (h : r = evidenceRecords context.state batch)
      (hrule : batch.evidence.rule = context.rule) (hentity : batch.evidence.entityId = visit.id)
      (hwait : batch.evidence.waitDeltaMicroseconds = 0)
      (htype : batch.eventType = .RISK_EVALUATED)
      (hrows : batch.state.toScrumCollections = {}) (hfirst : visit.pauseMicroseconds = 0)
  | waits (batch : EvidenceBatch p) (h : r = evidenceRecords context.state batch)
      (hrule : batch.evidence.rule = context.rule) (hentity : batch.evidence.entityId = visit.id)
      (hwaits : DependencyWait context visit batch.evidence.waitDeltaMicroseconds)
      (hrows : batch.state.toScrumCollections =
        { statusVisits := [pausedBy visit batch.evidence.waitDeltaMicroseconds] })
      (hstarts : batch.eventType = .EXTERNAL_DEPENDENCY_STARTED → visit.pauseMicroseconds = 0)

theorem dependencyRecords_step {context : RiskContext p} {visit : StatusVisitState}
    {r : RiskRecords p} (h : dependencyRecords context visit = .ok r) :
    DependencyStep context visit r := by
  simp only [dependencyRecords, bind_eq_ok] at h
  obtain ⟨paused, hpaused, h⟩ := h
  cases paused with
  | true =>
    simp only [if_true, pure_eq_ok] at h
    refine .idle h.symm fun _ hruns _ => ?_
    rw [hpaused] at hruns
    cases hruns
  | false =>
    simp only [Bool.false_eq_true, if_false, bind_eq_ok] at h
    obtain ⟨hours, hhours, h⟩ := h
    have hwait : totalWait context.rule = .ok (hoursToRoundedMicroseconds hours) := by
      rw [totalWait, hhours]
      rfl
    -- nothing of the wait is left, or the window is empty
    by_cases hnone : max 0 (hoursToRoundedMicroseconds hours - visit.pauseMicroseconds) = 0 ∨
        context.asOf ≤ cursor context.state
    · rw [if_pos hnone, pure_eq_ok] at h
      refine .idle h.symm fun _ _ hbegun => ⟨_, hwait, ?_⟩
      have hrounded : 0 ≤ roundedMicroseconds (context.asOf - cursor context.state) :=
        roundedMicroseconds_nonneg (by omega)
      unfold waitWithin
      omega
    rw [if_neg hnone] at h
    obtain ⟨-, hbegun⟩ := not_or.mp hnone
    by_cases hcontinue : visit.pauseMicroseconds ≠ 0
    · -- the pause of an earlier tick continues
      rw [if_pos hcontinue, dependencyContinuation] at h
      split_ifs at h with hdelta
      · exact .idle (Except.ok.inj h).symm fun _ _ _ => ⟨_, hwait, hdelta⟩
      · simp only [bind_eq_ok, pure_eq_ok, ScrumStateWriteSet.create_eq_ok] at h
        obtain ⟨blocked, hblocked, work, -, people, -, state, hstate, h⟩ := h
        obtain ⟨rfl, hvalid⟩ := pausedVisit_eq_ok hblocked
        exact .waits _ h.symm rfl rfl ⟨⟨hvalid, hdelta, not_le.mp hbegun, hours, hhours, rfl⟩,
          hpaused, .inl hcontinue⟩ hstate nofun
    rw [if_neg hcontinue] at h
    rw [not_not] at hcontinue
    by_cases hentered : visit.enteredAt ≠ cursor context.state
    · rw [if_pos hentered, pure_eq_ok] at h
      exact .idle h.symm fun hpause => absurd hcontinue hpause
    · -- the visit was entered at the cursor, so the dependency is decided
      simp only [if_neg hentered, dependencyEntry, bind_eq_ok] at h
      obtain ⟨decision, hdecision, h⟩ := h
      -- a decision that declines the wait has no duration
      have hdelta := dependencyDecision_delta hdecision
      obtain ⟨hrule, hentity, hrecorded, hdeclined⟩ :
          decision.evidence.rule = context.rule ∧ decision.evidence.entityId = visit.id ∧
          decision.evidence.waitDeltaMicroseconds = decision.delta ∧
          (decision.evidence.outcome = false → decision.delta = 0) := by
        simp only [dependencyDecision, bind_eq_ok, pure_eq_ok] at hdecision
        obtain ⟨work, -, probability, -, people, -, rfl⟩ := hdecision
        refine ⟨rfl, rfl, rfl, fun houtcome => ?_⟩
        simp only at houtcome ⊢
        rw [houtcome]
        rfl
      split_ifs at h with houtcome
      · simp only [bind_eq_ok, pure_eq_ok, ScrumStateWriteSet.create_eq_ok] at h
        obtain ⟨blocked, hblocked, state, hstate, h⟩ := h
        obtain ⟨rfl, hvalid⟩ := pausedVisit_eq_ok hblocked
        obtain ⟨hlength, hdrawn⟩ := hdelta houtcome.1
        rw [← hrecorded] at hvalid hstate hlength
        refine .waits _ h.symm hrule hentity ⟨⟨hvalid, ?_, not_le.mp hbegun, hours, hhours,
          hlength⟩, hpaused, .inr ⟨not_not.mp hentered, hdrawn⟩⟩ hstate fun _ => hcontinue
        rw [hrecorded]
        exact houtcome.2
      · refine .declined _ (pure_eq_ok.mp h).symm hrule hentity ?_ rfl rfl hcontinue
        rw [hrecorded]
        by_cases htrue : decision.evidence.outcome = true
        · by_contra hne
          exact houtcome ⟨htrue, hne⟩
        · exact hdeclined (Bool.not_eq_true _ ▸ htrue)

theorem DependencyWait.waitWithin_eq {context : RiskContext p} {visit : StatusVisitState} {delta : ℤ}
    (h : DependencyWait context visit delta) : ∃ wait, totalWait context.rule = .ok wait ∧
      delta = waitWithin wait visit.pauseMicroseconds (context.asOf - cursor context.state) := by
  obtain ⟨hours, hhours, hdelta⟩ := h.wait
  refine ⟨hoursToRoundedMicroseconds hours, ?_, hdelta⟩
  rw [totalWait, hhours]
  rfl

/-- The records of the rule for one visit are about this visit. -/
theorem DependencyStep.not_about {context : RiskContext p} {visit : StatusVisitState}
    {r : RiskRecords p} (h : DependencyStep context visit r) {other : Uuid}
    (hother : visit.id ≠ other) :
    waitRecords r.groundTruth other = [] ∧ startedEvents r.activity other = [] := by
  have hbatch : ∀ batch : EvidenceBatch p, batch.evidence.entityId = visit.id →
      waitRecords (evidenceRecords context.state batch).groundTruth other = [] ∧
        startedEvents (evidenceRecords context.state batch).activity other = [] := by
    intro batch hentity
    rw [waitRecords_evidenceRecords, startedEvents_evidenceRecords, hentity]
    exact ⟨if_neg fun h => hother h.2, if_neg fun h => hother h.2⟩
  cases h with
  | idle h =>
    rw [h]
    exact ⟨rfl, rfl⟩
  | declined batch h _ hentity =>
    rw [h]
    exact hbatch batch hentity
  | waits batch h _ hentity =>
    rw [h]
    exact hbatch batch hentity

/-- What the records of the rule say about the visit that they are about. -/
structure VisitWaits (context : RiskContext p) (visit : StatusVisitState) (r : RiskRecords p) :
    Prop where
  one : (waitRecords r.groundTruth visit.id).length ≤ 1
  once : (startedEvents r.activity visit.id).length ≤ 1
  rows : (r.state.toScrumCollections = {} ∧ waitTotal r.groundTruth visit.id = 0 ∧
      startedEvents r.activity visit.id = []) ∨
    (DependencyWait context visit (waitTotal r.groundTruth visit.id) ∧
      r.state.toScrumCollections =
        { statusVisits := [pausedBy visit (waitTotal r.groundTruth visit.id)] } ∧
      (startedEvents r.activity visit.id ≠ [] → visit.pauseMicroseconds = 0))
  continues : visit.pauseMicroseconds ≠ 0 →
    intrinsicallyPaused context.state visit = .ok false → cursor context.state < context.asOf →
    ∃ wait, totalWait context.rule = .ok wait ∧ waitTotal r.groundTruth visit.id =
      waitWithin wait visit.pauseMicroseconds (context.asOf - cursor context.state)

theorem DependencyStep.visitWaits {context : RiskContext p} {visit : StatusVisitState}
    {r : RiskRecords p} (hkey : context.rule.key = "EXTERNAL_DEPENDENCY")
    (h : DependencyStep context visit r) : VisitWaits context visit r := by
  -- a batch of evidence records one wait, for the visit it names
  have hrecords : ∀ batch : EvidenceBatch p, batch.evidence.rule = context.rule →
      batch.evidence.entityId = visit.id →
      waitRecords (evidenceRecords context.state batch).groundTruth visit.id =
        [batch.evidence.waitDeltaMicroseconds] := by
    intro batch hrule hentity
    rw [waitRecords_evidenceRecords]
    exact if_pos ⟨by rw [hrule, hkey], hentity⟩
  -- and at most one start of a dependency
  have honce : ∀ batch : EvidenceBatch p,
      (startedEvents (evidenceRecords context.state batch).activity visit.id).length ≤ 1 := by
    intro batch
    rw [startedEvents_evidenceRecords]
    split_ifs <;> simp
  cases h with
  | idle h hdone =>
    subst h
    refine ⟨Nat.zero_le _, Nat.zero_le _, .inl ⟨rfl, rfl, rfl⟩, fun hpause hruns hbegun => ?_⟩
    obtain ⟨wait, hwait, hzero⟩ := hdone hpause hruns hbegun
    exact ⟨wait, hwait, hzero.symm⟩
  | declined batch h hrule hentity hwait htype hrows hfirst =>
    subst h
    have hbatch := hrecords batch hrule hentity
    have htotal : waitTotal (evidenceRecords context.state batch).groundTruth visit.id = 0 := by
      rw [waitTotal, hbatch, hwait]
      rfl
    refine ⟨by rw [hbatch]; exact le_rfl, honce batch, .inl ⟨hrows, htotal, ?_⟩,
      fun hpause => absurd hfirst hpause⟩
    rw [startedEvents_evidenceRecords, if_neg]
    rw [htype]
    simp
  | waits batch h hrule hentity hwaits hrows hstarts =>
    subst h
    have hbatch := hrecords batch hrule hentity
    have htotal : waitTotal (evidenceRecords context.state batch).groundTruth visit.id =
        batch.evidence.waitDeltaMicroseconds := by
      rw [waitTotal, hbatch, List.sum_singleton]
    refine ⟨by rw [hbatch]; exact le_rfl, honce batch, .inr ⟨?_, ?_, fun hstarted => ?_⟩,
      fun _ _ _ => ?_⟩
    · rw [htotal]
      exact hwaits
    · rw [htotal]
      exact hrows
    · by_contra hpause
      refine hstarted ?_
      rw [startedEvents_evidenceRecords]
      exact if_neg fun h => hpause (hstarts h.1)
    · rw [htotal]
      exact hwaits.waitWithin_eq

/-! ### One rule -/

/-- The records of several visits about one that is none of them. -/
theorem records_not_about {context : RiskContext p} {visits : List StatusVisitState}
    {rs : List (RiskRecords p)}
    (h : List.Forall₂ (fun visit r => dependencyRecords context visit = .ok r) visits rs)
    {other : Uuid} (hother : other ∉ visits.map (·.id)) :
    (rs.flatMap fun r => waitRecords r.groundTruth other) = [] ∧
      (rs.flatMap fun r => startedEvents r.activity other) = [] := by
  have hnone : ∀ r ∈ rs, waitRecords r.groundTruth other = [] ∧
      startedEvents r.activity other = [] := by
    intro r hr
    obtain ⟨visit, hvisit, hrecords⟩ := forall₂_exists_left h hr
    refine (dependencyRecords_step hrecords).not_about fun hid => hother ?_
    exact List.mem_map.mpr ⟨visit, hvisit, hid⟩
  exact ⟨List.flatMap_eq_nil_iff.mpr fun r hr => (hnone r hr).1,
    List.flatMap_eq_nil_iff.mpr fun r hr => (hnone r hr).2⟩

/-- The records of several visits about one of them are those of this visit. -/
theorem records_about {context : RiskContext p} {visits : List StatusVisitState}
    {rs : List (RiskRecords p)}
    (h : List.Forall₂ (fun visit r => dependencyRecords context visit = .ok r) visits rs)
    (hnodup : (visits.map (·.id)).Nodup) {visit : StatusVisitState} (hvisit : visit ∈ visits) :
    ∃ r, dependencyRecords context visit = .ok r ∧
      (rs.flatMap fun r => waitRecords r.groundTruth visit.id) =
        waitRecords r.groundTruth visit.id ∧
      (rs.flatMap fun r => startedEvents r.activity visit.id) =
        startedEvents r.activity visit.id := by
  induction h with
  | nil => cases hvisit
  | @cons x r xs rs hrecords hrest ih =>
    rw [List.map_cons, List.nodup_cons] at hnodup
    rcases List.mem_cons.mp hvisit with rfl | hlater
    · obtain ⟨hwaits, hstarts⟩ := records_not_about hrest hnodup.1
      refine ⟨r, hrecords, ?_, ?_⟩
      · rw [List.flatMap_cons, hwaits, List.append_nil]
      · rw [List.flatMap_cons, hstarts, List.append_nil]
    · obtain ⟨r', hrecords', hwaits, hstarts⟩ := ih hnodup.2 hlater
      have hne : x.id ≠ visit.id := by
        intro hid
        exact hnodup.1 (List.mem_map.mpr ⟨visit, hlater, hid.symm⟩)
      obtain ⟨hnoWait, hnoStart⟩ := (dependencyRecords_step hrecords).not_about hne
      refine ⟨r', hrecords', ?_, ?_⟩
      · rw [List.flatMap_cons, hnoWait, List.nil_append, hwaits]
      · rw [List.flatMap_cons, hnoStart, List.nil_append, hstarts]

theorem openVisits_ids_nodup (state : LiveTeamState p) :
    ((openVisits state).map (·.id)).Nodup :=
  (List.filter_sublist.map _).nodup state.scrum.complete.keysUnique.statusVisits

section collect

variable {context : RiskContext p} {out : RiskRecords p}
  (h : collectRecords (dependencyRecords context) (openVisits context.state) = .ok out)

include h

/-- The rule records nothing about a visit that is not open. -/
theorem dependencyRecords_not_about {other : Uuid}
    (hother : other ∉ (openVisits context.state).map (·.id)) :
    waitRecords out.groundTruth other = [] ∧ startedEvents out.activity other = [] := by
  obtain ⟨rs, hall, hmerged⟩ := collectRecords_eq_ok h
  rw [hmerged.groundTruth, hmerged.activity, waitRecords, startedEvents,
    List.filterMap_flatMap, List.filter_flatMap]
  exact records_not_about hall hother

/-- The rule records about an open visit what it records for this visit. -/
theorem dependencyRecords_about {visit : StatusVisitState}
    (hvisit : visit ∈ openVisits context.state) :
    ∃ r, dependencyRecords context visit = .ok r ∧
      waitRecords out.groundTruth visit.id = waitRecords r.groundTruth visit.id ∧
      startedEvents out.activity visit.id = startedEvents r.activity visit.id := by
  obtain ⟨rs, hall, hmerged⟩ := collectRecords_eq_ok h
  rw [hmerged.groundTruth, hmerged.activity, waitRecords, startedEvents,
    List.filterMap_flatMap, List.filter_flatMap]
  exact records_about hall (openVisits_ids_nodup context.state) hvisit

end collect

/-- A rule for something else records no waits. -/
theorem handler_no_waits {context : RiskContext p} {out : RiskRecords p}
    {handler : RiskContext p → Result (RiskRecords p)}
    (hhandler : handlerFor context.rule.key = some handler) (hout : handler context = .ok out)
    (hkey : context.rule.key ≠ "EXTERNAL_DEPENDENCY") (visit : Uuid) :
    waitRecords out.groundTruth visit = [] ∧ startedEvents out.activity visit = [] := by
  constructor
  · refine List.filterMap_eq_nil_iff.mpr fun draft hdraft => ?_
    obtain ⟨evidence, hdecides, rfl⟩ := handler_evidenced hhandler hout draft hdraft
    have hnone := waitRecords_decisionTruth context.state evidence visit
    rw [if_neg fun h => hkey (hdecides.rule ▸ h.1)] at hnone
    exact List.filterMap_eq_nil_iff.mp hnone _ (List.mem_singleton_self _)
  · obtain ⟨rs, hmerged, hdecisions⟩ := handler_decisions hhandler hout
    rw [hmerged.activity, startedEvents, List.filter_flatMap]
    refine List.flatMap_eq_nil_iff.mpr fun r hr => ?_
    rcases hdecisions r hr with rfl | ⟨batch, rfl, -, -, hstarted⟩
    · rfl
    · refine (startedEvents_evidenceRecords context.state batch visit).trans (if_neg fun h => ?_)
      exact hkey (hstarted h.1)

/-! ### One evaluation -/

/-- The row of a visit in an evaluation, whose waits so far are those of the records. -/
structure WaitedFrom (state : LiveTeamState p) (asOf : ℤ) (before : List RiskRule)
    (records : RiskRecords p) (visit row : StatusVisitState) : Prop where
  id : row.id = visit.id
  statusKey : row.statusKey = visit.statusKey
  pause : row.pauseMicroseconds =
    visit.pauseMicroseconds + waitTotal records.groundTruth row.id
  started : startedEvents records.activity row.id ≠ [] →
    visit.pauseMicroseconds = 0 ∧ waitTotal records.groundTruth row.id ≠ 0
  fits : waitTotal records.groundTruth row.id ≠ 0 → ∃ rule ∈ before, DependencyRule rule ∧
    ∃ wait, totalWait rule = .ok wait ∧ cursor state < asOf ∧
      waitTotal records.groundTruth row.id =
        waitWithin wait visit.pauseMicroseconds (asOf - cursor state)
  continues : row.lifecycle = .OPEN → visit.pauseMicroseconds ≠ 0 →
    intrinsicallyPaused state visit = .ok false → cursor state < asOf →
    ∀ rule ∈ before, DependencyRule rule → ∃ wait, totalWait rule = .ok wait ∧
      waitTotal records.groundTruth row.id =
        waitWithin wait visit.pauseMicroseconds (asOf - cursor state)

/-- The working rows and the records of an evaluation after some of its rules. -/
structure WaitingAfter (state : LiveTeamState p) (asOf : ℤ) (before : List RiskRule)
    (progress : RiskProgress p) : Prop where
  aggregate : progress.working.aggregate = state.aggregate
  counters : progress.working.scrum.semanticCounters = state.scrum.semanticCounters
  rows : ∀ row ∈ progress.working.scrum.statusVisits,
    ∃ visit, Begins state visit ∧ WaitedFrom state asOf before progress.records visit row
  one : ∀ id, (waitRecords progress.records.groundTruth id).length ≤ 1 ∧
    (startedEvents progress.records.activity id).length ≤ 1
  known : ∀ id, id ∉ progress.working.scrum.statusVisits.map (·.id) →
    waitRecords progress.records.groundTruth id = [] ∧
      startedEvents progress.records.activity id = []
  undecided : (∀ rule ∈ before, rule.key ≠ "EXTERNAL_DEPENDENCY") → ∀ id,
    waitRecords progress.records.groundTruth id = [] ∧
      startedEvents progress.records.activity id = []
  unreviewed : (∀ rule ∈ before, rule.key ≠ "REVIEW_REJECTION") →
    ∀ row ∈ progress.working.scrum.statusVisits, row.id ∈ state.scrum.statusVisits.map (·.id)
  closed : ∀ row ∈ progress.working.scrum.statusVisits,
    row.id ∉ state.scrum.statusVisits.map (·.id) → row.lifecycle ≠ .OPEN →
    ∀ other ∈ openVisits progress.working, other.workItemId ≠ row.workItemId

theorem intrinsicallyPaused_of_status {state state' : LiveTeamState p} {a b : StatusVisitState}
    (haggregate : state'.aggregate = state.aggregate) (hstatus : b.statusKey = a.statusKey) :
    intrinsicallyPaused state' b = intrinsicallyPaused state a := by
  rw [intrinsicallyPaused, intrinsicallyPaused, haggregate, hstatus]

section row

variable {state : LiveTeamState p} {asOf : ℤ} {before : List RiskRule} {rule : RiskRule}
  {records records' : RiskRecords p} {visit row row' : StatusVisitState}

/-- A row that has not waited in the evaluation. -/
theorem WaitedFrom.unwaited (hpause : row.pauseMicroseconds = visit.pauseMicroseconds)
    (hid : row.id = visit.id) (hstatus : row.statusKey = visit.statusKey)
    (hnone : waitRecords records.groundTruth row.id = [] ∧
      startedEvents records.activity row.id = [])
    (hundecided : visit.pauseMicroseconds = 0 ∨ ∀ rule ∈ before, ¬DependencyRule rule) :
    WaitedFrom state asOf before records visit row where
  id := hid
  statusKey := hstatus
  pause := by rw [waitTotal_of_none hnone.1, add_zero, hpause]
  started h := absurd hnone.2 h
  fits h := absurd (waitTotal_of_none hnone.1) h
  continues _ hwaits _ _ rule hrule hdependency := by
    rcases hundecided with hzero | hother
    · exact absurd hzero hwaits
    · exact absurd hdependency (hother rule hrule)

/-- A rule without records about the visit that keeps its pause. -/
theorem WaitedFrom.keeps (h : WaitedFrom state asOf before records visit row)
    (hother : ¬DependencyRule rule ∨ row'.lifecycle ≠ .OPEN) (hid : row'.id = row.id)
    (hstatus : row'.statusKey = row.statusKey)
    (hpause : row'.pauseMicroseconds = row.pauseMicroseconds)
    (hopen : row'.lifecycle = .OPEN → row.lifecycle = .OPEN)
    (hwaits : waitRecords records'.groundTruth row.id = waitRecords records.groundTruth row.id)
    (hstarts : startedEvents records'.activity row.id = startedEvents records.activity row.id) :
    WaitedFrom state asOf (before ++ [rule]) records' visit row' := by
  have htotal : waitTotal records'.groundTruth row'.id = waitTotal records.groundTruth row.id := by
    rw [hid, waitTotal, waitTotal, hwaits]
  refine ⟨hid.trans h.id, hstatus.trans h.statusKey, ?_, ?_, ?_, ?_⟩
  · rw [htotal, hpause, h.pause]
  · rw [htotal, hid, hstarts]
    exact h.started
  · rw [htotal]
    intro hne
    obtain ⟨waiting, hmem, hfits⟩ := h.fits hne
    exact ⟨waiting, List.mem_append_left _ hmem, hfits⟩
  · intro hopen' hwaiting hruns hbegun waiting hmem hdependency
    rw [htotal]
    rcases List.mem_append.mp hmem with hmem | hmem
    · exact h.continues (hopen hopen') hwaiting hruns hbegun waiting hmem hdependency
    · rw [List.mem_singleton.mp hmem] at hdependency
      rcases hother with hnot | hclosed
      · exact absurd hdependency hnot
      · exact absurd hopen' hclosed

/-- The rule for external dependencies has decided about the visit. -/
theorem WaitedFrom.decided {working : LiveTeamState p} {draws : DrawSource} {r : RiskRecords p}
    (h : WaitedFrom state asOf before records visit row) (haggregate :
      working.aggregate = state.aggregate) (hdependency : DependencyRule rule)
    (hnone : waitRecords records.groundTruth row.id = [])
    (hwaits : VisitWaits { state := working, asOf, draws, rule } row r)
    (hid : row'.id = row.id) (hstatus : row'.statusKey = row.statusKey)
    (hpause : row'.pauseMicroseconds =
      row.pauseMicroseconds + waitTotal r.groundTruth row.id)
    (hrecords : waitRecords records'.groundTruth row.id = waitRecords r.groundTruth row.id)
    (hstarts : startedEvents records'.activity row.id = startedEvents r.activity row.id)
    (hother : ∀ earlier ∈ before, earlier.key ≠ rule.key) :
    WaitedFrom state asOf (before ++ [rule]) records' visit row' := by
  have htotal : waitTotal records'.groundTruth row'.id = waitTotal r.groundTruth row.id := by
    rw [hid, waitTotal, waitTotal, hrecords]
  -- nothing was recorded before, so the row has the pause of the visit
  have hzero : row.pauseMicroseconds = visit.pauseMicroseconds := by
    rw [h.pause, waitTotal_of_none hnone, add_zero]
  have hcursor : cursor working = cursor state := by
    rw [cursor, cursor, haggregate]
  refine ⟨hid.trans h.id, hstatus.trans h.statusKey, ?_, ?_, ?_, ?_⟩
  · rw [htotal, hpause, hzero]
  · rw [htotal, hid, hstarts]
    intro hne
    rcases hwaits.rows with ⟨-, -, hnot⟩ | ⟨hwait, -, hfirst⟩
    · exact absurd hnot hne
    · exact ⟨hzero ▸ hfirst hne, hwait.ne_zero⟩
  · rw [htotal]
    intro hne
    rcases hwaits.rows with ⟨-, hnot, -⟩ | ⟨hwait, -, -⟩
    · exact absurd hnot hne
    · obtain ⟨wait, hwait', hdelta⟩ := hwait.waitWithin_eq
      have hbegun := hwait.begun
      simp only [hcursor, hzero] at hdelta hbegun
      exact ⟨rule, List.mem_append_right _ (List.mem_singleton_self _), hdependency, wait, hwait',
        hbegun, hdelta⟩
  · intro _ hwaiting hruns hbegun waiting hmem hwaitingRule
    rcases List.mem_append.mp hmem with hmem | hmem
    · exact absurd (hwaitingRule.key.trans hdependency.key.symm) (hother waiting hmem)
    · rw [List.mem_singleton.mp hmem, htotal]
      have hcontinues := hwaits.continues
      simp only [hcursor, hzero] at hcontinues
      exact hcontinues hwaiting
        ((intrinsicallyPaused_of_status haggregate h.statusKey).trans hruns) hbegun

end row

/-! ### The rules one by one -/

/-- The rows of the visits after a rule. -/
theorem mem_writtenRows {working working' : LiveTeamState p} {outcome : RiskRecords p}
    (h : working.withWriteSet outcome.state = .ok working') {row : StatusVisitState} :
    row ∈ working'.scrum.statusVisits ↔ row ∈ outcome.state.statusVisits ∨
      (row ∈ working.scrum.statusVisits ∧ row.id ∉ outcome.state.statusVisits.map (·.id)) := by
  rw [(LiveTeamState.withWriteSet_eq_ok.mp h).2]
  exact Collection.statusVisits.mem_updateWith working.scrum.complete.toConsistent
    outcome.state.consistent

/-- No visit is lost by a rule. -/
theorem writtenRows_ids {working working' : LiveTeamState p} {outcome : RiskRecords p}
    (h : working.withWriteSet outcome.state = .ok working') {id : Uuid}
    (hid : id ∈ working.scrum.statusVisits.map (·.id)) :
    id ∈ working'.scrum.statusVisits.map (·.id) := by
  obtain ⟨row, hrow, rfl⟩ := List.mem_map.mp hid
  by_cases hwritten : row.id ∈ outcome.state.statusVisits.map (·.id)
  · obtain ⟨row', hrow', hsame⟩ := List.mem_map.mp hwritten
    exact List.mem_map.mpr ⟨row', (mem_writtenRows h).mpr (.inl hrow'), hsame⟩
  · exact List.mem_map_of_mem ((mem_writtenRows h).mpr (.inr ⟨hrow, hwritten⟩))

/-- The row of a visit after a rule that lets no visit wait. -/
inductive UnwaitedRow (state working : LiveTeamState p) (rule : RiskRule)
    (written : List StatusVisitState) (row : StatusVisitState) : Prop
  | stays (h : row ∈ working.scrum.statusVisits) (hfree : row.id ∉ written.map (·.id))
  | returned (hkey : rule.key = "REVIEW_REJECTION")
      (hnew : row.id ∉ state.scrum.statusVisits.map (·.id)) (hopen : row.lifecycle = .OPEN)
      (hpause : row.pauseMicroseconds = 0) (hbegins : Begins state row)
  | cancelled (hkey : rule.key = "CANCELLATION") (visit : StatusVisitState) (boundary : ℤ)
      (hvisit : visit ∈ openVisits working) (hwritten : visit.id ∈ written.map (·.id))
      (h : row = cancelledVisit visit boundary)

section step

variable {state : LiveTeamState p} (hcounted : OrdinalsCounted state.scrum.toScrumCollections)
  {asOf : ℤ} {draws : DrawSource} {before : List RiskRule} {rule : RiskRule}
  {progress progress' : RiskProgress p} {outcome : RiskRecords p}

include hcounted in
theorem WaitingAfter.unwaitedRow (h : WaitingAfter state asOf before progress)
    {handler : RiskContext p → Result (RiskRecords p)}
    (hhandler : handlerFor rule.key = some handler)
    (hout : handler { state := progress.working, asOf, draws, rule } = .ok outcome)
    (hworking : progress.working.withWriteSet outcome.state = .ok progress'.working)
    (hkey : rule.key ≠ "EXTERNAL_DEPENDENCY") {row : StatusVisitState}
    (hrow : row ∈ progress'.working.scrum.statusVisits) :
    UnwaitedRow state progress.working rule outcome.state.statusVisits row := by
  rcases (mem_writtenRows hworking).mp hrow with hwritten | ⟨hstays, hfree⟩
  · have hwrites : WritesVisit { state := progress.working, asOf, draws, rule } row :=
      handler_writesVisit hhandler hout hwritten
    cases hwrites with
    | returned hreview work decision sample hreturns =>
      obtain ⟨hnew, hbegins⟩ := hreturns.begins hcounted h.aggregate h.counters
      obtain ⟨review, step, counter, hreturn⟩ := hreturns
      exact .returned hreview hnew hreturn.enters.lifecycle_eq hreturn.enters.pause_eq hbegins
    | cancelled hcancellation boundary work decision hcancels hcancelled =>
      obtain ⟨hmem, -, hopen⟩ := hcancels.visit_mem
      refine .cancelled hcancellation decision.visit boundary (mem_openVisits.mpr ⟨hmem, hopen⟩) ?_
        hcancelled
      exact List.mem_map.mpr ⟨row, hwritten, by rw [hcancelled]; rfl⟩
    | waits visit delta hwaits => exact absurd hwaits.key hkey
  · exact .stays hstays hfree

/-- A rule that lets no visit wait. -/
theorem WaitingAfter.unwaited (h : WaitingAfter state asOf before progress)
    (hrule : ¬DependencyRule rule) (hother : ∀ earlier ∈ before, earlier.key ≠ rule.key)
    (haggregate : progress'.working.aggregate = progress.working.aggregate)
    (hcounters : progress'.working.scrum.semanticCounters =
      progress.working.scrum.semanticCounters)
    (hids : ∀ id ∈ progress.working.scrum.statusVisits.map (·.id),
      id ∈ progress'.working.scrum.statusVisits.map (·.id))
    (hwaits : ∀ id, waitRecords progress'.records.groundTruth id =
      waitRecords progress.records.groundTruth id)
    (hstarts : ∀ id, startedEvents progress'.records.activity id =
      startedEvents progress.records.activity id)
    (written : List StatusVisitState) (hrows : ∀ row ∈ progress'.working.scrum.statusVisits,
      UnwaitedRow state progress.working rule written row) :
    WaitingAfter state asOf (before ++ [rule]) progress' := by
  -- the visits before a review are those that the evaluation found
  have hfound : rule.key = "REVIEW_REJECTION" → ∀ row ∈ progress.working.scrum.statusVisits,
      row.id ∈ state.scrum.statusVisits.map (·.id) := fun hreview =>
    h.unreviewed fun earlier hearlier => hreview ▸ hother earlier hearlier
  refine ⟨haggregate.trans h.aggregate, hcounters.trans h.counters, fun row hrow => ?_,
    fun id => ?_, fun id hid => ?_, fun hundecided id => ?_, fun hunreviewed row hrow => ?_,
    fun row hrow hnew hclosed other hopen => ?_⟩
  · cases hrows row hrow with
    | stays hmem hfree =>
      obtain ⟨visit, hbegins, hfrom⟩ := h.rows row hmem
      exact ⟨visit, hbegins, hfrom.keeps (.inl hrule) rfl rfl rfl id (hwaits _) (hstarts _)⟩
    | returned hreview hnew hopen hpause hbegins =>
      have hunknown : row.id ∉ progress.working.scrum.statusVisits.map (·.id) := by
        intro hmem
        obtain ⟨old, hold, hid⟩ := List.mem_map.mp hmem
        exact hnew (hid ▸ hfound hreview old hold)
      refine ⟨row, hbegins, .unwaited rfl rfl rfl ?_ (.inl hpause)⟩
      rw [hwaits, hstarts]
      exact h.known row.id hunknown
    | cancelled _ visit boundary hvisit _ hcancelled =>
      obtain ⟨hmem, hopen⟩ := mem_openVisits.mp hvisit
      obtain ⟨origin, hbegins, hfrom⟩ := h.rows visit hmem
      subst hcancelled
      exact ⟨origin, hbegins, hfrom.keeps (.inl hrule) rfl rfl rfl (fun _ => hopen) (hwaits _)
        (hstarts _)⟩
  · rw [hwaits, hstarts]
    exact h.one id
  · rw [hwaits, hstarts]
    exact h.known id fun hmem => hid (hids id hmem)
  · rw [hwaits, hstarts]
    exact h.undecided (fun earlier hearlier =>
      hundecided earlier (List.mem_append_left _ hearlier)) id
  · have hearlier : ∀ earlier ∈ before, earlier.key ≠ "REVIEW_REJECTION" :=
      fun earlier hearlier => hunreviewed earlier (List.mem_append_left _ hearlier)
    cases hrows row hrow with
    | stays hmem => exact h.unreviewed hearlier row hmem
    | returned hreview =>
      exact absurd hreview
        (hunreviewed rule (List.mem_append_right _ (List.mem_singleton_self _)))
    | cancelled _ visit boundary hvisit _ hcancelled =>
      rw [hcancelled]
      exact h.unreviewed hearlier visit (mem_openVisits.mp hvisit).1
  · obtain ⟨hotherMem, hotherOpen⟩ := mem_openVisits.mp hopen
    cases hrows row hrow with
    | returned _ _ hrowOpen => exact absurd hrowOpen hclosed
    | stays hmem hfree =>
      cases hrows other hotherMem with
      | stays hotherMem' =>
        exact h.closed row hmem hnew hclosed other (mem_openVisits.mpr ⟨hotherMem', hotherOpen⟩)
      | returned hreview => exact absurd (hfound hreview row hmem) hnew
      | cancelled _ _ _ _ _ hcancelled =>
        rw [hcancelled] at hotherOpen
        cases hotherOpen
    | cancelled hcancellation visit boundary hvisit hwritten hcancelled =>
      cases hrows other hotherMem with
      | stays hotherMem' hfree =>
        -- the cancelled visit was the open one of its item
        intro hitem
        obtain ⟨hmem, hvisitOpen⟩ := mem_openVisits.mp hvisit
        have hsame : other = visit := progress.working.scrum.complete.openVisit_unique hotherMem'
          hmem hotherOpen hvisitOpen (by rw [hitem, hcancelled]; rfl)
        exact hfree (hsame ▸ hwritten)
      | returned hreview => exact absurd (hreview.symm.trans hcancellation) (by decide)
      | cancelled _ _ _ _ _ hcancelled' =>
        rw [hcancelled'] at hotherOpen
        cases hotherOpen

/-- The rule for external dependencies. -/
theorem WaitingAfter.decides (h : WaitingAfter state asOf before progress)
    (hrule : DependencyRule rule) (hother : ∀ earlier ∈ before, earlier.key ≠ rule.key)
    (hout : collectRecords (dependencyRecords { state := progress.working, asOf, draws, rule })
      (openVisits progress.working) = .ok outcome)
    (hmerge : progress.records.merge outcome = .ok progress'.records)
    (hworking : progress.working.withWriteSet outcome.state = .ok progress'.working)
    (hcounters : progress'.working.scrum.semanticCounters =
      progress.working.scrum.semanticCounters) :
    WaitingAfter state asOf (before ++ [rule]) progress' := by
  obtain ⟨-, hactivity, hgroundTruth, -⟩ := RiskRecords.merge_eq_ok hmerge
  have hundecided := h.undecided fun earlier hearlier => hrule.key ▸ hother earlier hearlier
  have hwaits : ∀ id, waitRecords progress'.records.groundTruth id =
      waitRecords outcome.groundTruth id := by
    intro id
    rw [hgroundTruth, waitRecords_append, (hundecided id).1, List.nil_append]
  have hstarts : ∀ id, startedEvents progress'.records.activity id =
      startedEvents outcome.activity id := by
    intro id
    rw [hactivity, startedEvents_append, (hundecided id).2, List.nil_append]
  have hvisitWaits : ∀ visit r, dependencyRecords
      { state := progress.working, asOf, draws, rule } visit = .ok r →
      VisitWaits { state := progress.working, asOf, draws, rule } visit r := fun visit r hr =>
    (dependencyRecords_step hr).visitWaits hrule.key
  -- a row that the rule writes is the paused row of an open visit
  have hwritten : ∀ row ∈ outcome.state.statusVisits, ∃ visit ∈ openVisits progress.working,
      ∃ r, dependencyRecords { state := progress.working, asOf, draws, rule } visit = .ok r ∧
        row = pausedBy visit (waitTotal r.groundTruth visit.id) := by
    intro row hrow
    obtain ⟨visit, hvisit, r, hr, hmem⟩ :=
      collectRecords_exists_of_mem hout Collection.statusVisits hrow
    refine ⟨visit, hvisit, r, hr, ?_⟩
    rcases (hvisitWaits visit r hr).rows with ⟨hrows, -, -⟩ | ⟨-, hrows, -⟩
    · rw [hrows] at hmem
      cases hmem
    · rw [hrows] at hmem
      exact List.mem_singleton.mp hmem
  have hopenIds : ∀ id, id ∉ progress.working.scrum.statusVisits.map (·.id) →
      id ∉ (openVisits progress.working).map (·.id) := by
    intro id hid hmem
    obtain ⟨visit, hvisit, hsame⟩ := List.mem_map.mp hmem
    exact hid (List.mem_map.mpr ⟨visit, (mem_openVisits.mp hvisit).1, hsame⟩)
  refine ⟨?_, hcounters.trans h.counters, fun row hrow => ?_, fun id => ?_, fun id hid => ?_,
    fun hundecided' => ?_, fun hunreviewed row hrow => ?_, fun row hrow hnew hclosed other hopen => ?_⟩
  · exact (LiveTeamState.withWriteSet_eq_ok.mp hworking).1.trans h.aggregate
  · rcases (mem_writtenRows hworking).mp hrow with hnow | ⟨hstays, hfree⟩
    · obtain ⟨visit, hvisit, r, hr, hpaused⟩ := hwritten row hnow
      obtain ⟨origin, hbegins, hfrom⟩ := h.rows visit (mem_openVisits.mp hvisit).1
      obtain ⟨r', hr', hrecords, hevents⟩ := dependencyRecords_about hout hvisit
      obtain rfl : r' = r := Except.ok.inj (hr'.symm.trans hr)
      refine ⟨origin, hbegins, hfrom.decided h.aggregate hrule (hundecided visit.id).1
        (hvisitWaits visit r' hr) ?_ ?_ ?_ ((hwaits _).trans hrecords) ((hstarts _).trans hevents)
        hother⟩
      all_goals
        rw [hpaused]
        rfl
    · obtain ⟨origin, hbegins, hfrom⟩ := h.rows row hstays
      by_cases hopen : row.lifecycle = .OPEN
      · have hvisit := mem_openVisits.mpr ⟨hstays, hopen⟩
        obtain ⟨r, hr, hrecords, hevents⟩ := dependencyRecords_about hout hvisit
        have hzero : waitTotal r.groundTruth row.id = 0 := by
          rcases (hvisitWaits row r hr).rows with ⟨-, hzero, -⟩ | ⟨-, hrows, -⟩
          · exact hzero
          · have hmem : pausedBy row (waitTotal r.groundTruth row.id) ∈ r.state.statusVisits := by
              rw [hrows]
              exact List.mem_singleton_self _
            exact absurd (collectRecords_key_mem hout Collection.statusVisits hvisit hr hmem) hfree
        refine ⟨origin, hbegins, hfrom.decided h.aggregate hrule (hundecided row.id).1
          (hvisitWaits row r hr) rfl rfl ?_ ((hwaits _).trans hrecords)
          ((hstarts _).trans hevents) hother⟩
        rw [hzero, add_zero]
      · have hclosed : row.id ∉ (openVisits progress.working).map (·.id) := by
          intro hmem
          obtain ⟨visit, hvisit, hid⟩ := List.mem_map.mp hmem
          obtain ⟨hmem, hvisitOpen⟩ := mem_openVisits.mp hvisit
          have hsame : visit = row := Collection.statusVisits.eq_of_key_eq
            progress.working.scrum.complete.toConsistent hmem hstays hid
          exact hopen (hsame ▸ hvisitOpen)
        obtain ⟨hnoWait, hnoStart⟩ := dependencyRecords_not_about hout hclosed
        refine ⟨origin, hbegins, hfrom.keeps (.inr hopen) rfl rfl rfl id ?_ ?_⟩
        · rw [hwaits, hnoWait, (hundecided row.id).1]
        · rw [hstarts, hnoStart, (hundecided row.id).2]
  · rw [hwaits, hstarts]
    by_cases hknown : id ∈ (openVisits progress.working).map (·.id)
    · obtain ⟨visit, hvisit, rfl⟩ := List.mem_map.mp hknown
      obtain ⟨r, hr, hrecords, hevents⟩ := dependencyRecords_about hout hvisit
      rw [hrecords, hevents]
      exact ⟨(hvisitWaits visit r hr).one, (hvisitWaits visit r hr).once⟩
    · obtain ⟨hnoWait, hnoStart⟩ := dependencyRecords_not_about hout hknown
      rw [hnoWait, hnoStart]
      exact ⟨Nat.zero_le _, Nat.zero_le _⟩
  · rw [hwaits, hstarts]
    exact dependencyRecords_not_about hout
      (hopenIds id fun hmem => hid (writtenRows_ids hworking hmem))
  · exact absurd hrule.key
      (hundecided' rule (List.mem_append_right _ (List.mem_singleton_self _)))
  · have hearlier := h.unreviewed fun earlier hearlier =>
      hunreviewed earlier (List.mem_append_left _ hearlier)
    rcases (mem_writtenRows hworking).mp hrow with hnow | ⟨hstays, -⟩
    · obtain ⟨visit, hvisit, r, -, hpaused⟩ := hwritten row hnow
      rw [hpaused]
      exact hearlier visit (mem_openVisits.mp hvisit).1
    · exact hearlier row hstays
  · rcases (mem_writtenRows hworking).mp hrow with hnow | ⟨hstays, -⟩
    · obtain ⟨visit, hvisit, r, -, hpaused⟩ := hwritten row hnow
      rw [hpaused] at hclosed
      exact absurd (mem_openVisits.mp hvisit).2 hclosed
    · obtain ⟨hotherMem, hotherOpen⟩ := mem_openVisits.mp hopen
      rcases (mem_writtenRows hworking).mp hotherMem with hnow | ⟨hotherStays, -⟩
      · obtain ⟨visit, hvisit, r, -, hpaused⟩ := hwritten other hnow
        rw [hpaused]
        exact h.closed row hstays hnew hclosed visit hvisit
      · exact h.closed row hstays hnew hclosed other (mem_openVisits.mpr ⟨hotherStays, hotherOpen⟩)

include hcounted in
theorem WaitingAfter.step (h : WaitingAfter state asOf before progress)
    (hother : ∀ earlier ∈ before, earlier.key ≠ rule.key)
    (hstep : applyRule asOf draws progress rule = .ok progress') :
    WaitingAfter state asOf (before ++ [rule]) progress' := by
  obtain ⟨hagg, hframe, -⟩ := applyRule_riskStep hstep
  have hcounters := hframe.semanticCounters
  by_cases hkey : rule.key = "EXTERNAL_DEPENDENCY"
  · have hhandler : handlerFor (p := p) rule.key = some externalDependency := by
      rw [hkey]
      rfl
    simp only [applyRule, hhandler, bind_eq_ok, pure_eq_ok] at hstep
    obtain ⟨outcome, hout, records, hmerge, working, hworking, rfl⟩ := hstep
    by_cases htrigger : rule.trigger = "STATUS_ENTERED"
    · have hcollect : collectRecords (dependencyRecords
          { state := progress.working, asOf, draws, rule }) (openVisits progress.working) =
          .ok outcome := by
        rw [externalDependency, if_neg (not_not.mpr htrigger)] at hout
        exact hout
      exact h.decides ⟨hkey, htrigger⟩ hother hcollect hmerge hworking hcounters
    · -- the rule listens to something else, and does nothing
      rw [externalDependency, if_pos htrigger] at hout
      cases hout
      obtain ⟨-, hactivity, hgroundTruth, -⟩ := RiskRecords.merge_eq_ok hmerge
      refine h.unwaited (fun hrule => htrigger hrule.trigger) hother hagg hcounters
        (fun id => writtenRows_ids hworking) (fun id => ?_) (fun id => ?_) [] fun row hrow => ?_
      · rw [hgroundTruth, waitRecords_append]
        exact List.append_nil _
      · rw [hactivity, startedEvents_append]
        exact List.append_nil _
      · rcases (mem_writtenRows hworking).mp hrow with hnow | ⟨hstays, hfree⟩
        · cases hnow
        · exact .stays hstays hfree
  · have hrule : ¬DependencyRule rule := fun hrule => hkey hrule.key
    rcases applyRule_eq_ok hstep with rfl | ⟨handler, outcome, hhandler, hout, hmerge, hworking⟩
    · exact h.unwaited hrule hother rfl rfl (fun _ => id) (fun _ => rfl) (fun _ => rfl) []
        fun row hrow => .stays hrow List.not_mem_nil
    · -- a rule of another kind records no wait
      have hnone := handler_no_waits hhandler hout hkey
      obtain ⟨-, hactivity, hgroundTruth, -⟩ := RiskRecords.merge_eq_ok hmerge
      refine h.unwaited hrule hother hagg hcounters (fun id => writtenRows_ids hworking)
        (fun id => ?_) (fun id => ?_) outcome.state.statusVisits fun row hrow =>
          h.unwaitedRow hcounted hhandler hout hworking hkey hrow
      · rw [hgroundTruth, waitRecords_append, (hnone id).1, List.append_nil]
      · rw [hactivity, startedEvents_append, (hnone id).2, List.append_nil]

end step

/-- The rows and the records of the visits after a risk evaluation. -/
theorem evaluateDueRisks_waits {state working : LiveTeamState p} {asOf : ℤ} {draws : DrawSource}
    {risks : RiskRecords p} (hcounted : OrdinalsCounted state.scrum.toScrumCollections)
    (hrisks : evaluateDueRisks state asOf draws = .ok risks)
    (hworking : state.withWriteSet risks.state = .ok working) :
    WaitingAfter state asOf state.aggregate.blueprint.risks.rules
      { working, records := risks } := by
  refine progress_induction (motive := WaitingAfter state asOf) hrisks hworking ?_ ?_
  · have hnone : ∀ id, waitRecords ({} : RiskRecords p).groundTruth id = [] ∧
        startedEvents ({} : RiskRecords p).activity id = [] := fun id => ⟨rfl, rfl⟩
    refine ⟨rfl, rfl, fun row hrow => ⟨row, .kept hrow, ?_⟩, fun id => ⟨Nat.zero_le _, Nat.zero_le _⟩,
      fun id _ => hnone id, fun _ => hnone, fun _ row hrow => List.mem_map_of_mem hrow,
      fun row hrow hnew => absurd (List.mem_map_of_mem hrow) hnew⟩
    exact .unwaited rfl rfl rfl (hnone row.id) (.inr nofun)
  · intro before rule progress progress' hcontext h hstep
    exact h.step hcounted hcontext.key_ne hstep

end JiraSimulator
