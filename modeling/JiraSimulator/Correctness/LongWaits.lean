import JiraSimulator.Correctness.BusinessAddition
import JiraSimulator.Correctness.SegmentCuts
import JiraSimulator.Correctness.WaitAccounting

/-!
# Waits over long ticks

A wait goes on with the length of each tick, which is rounded through a floating-point number of
seconds.  Up to 2^50 microseconds the rounding is exact.  Beyond 2^32 seconds it is not, and a visit
waits for another time than the tick takes.

* `blockedTick_eq_ok`: a tick that blocks every open visit changes nothing but the waits.
* `dependency_waits`: the waits of every run, and the ticks that continue them exactly.
* `dependency_wait_loses`: a tick of 136 years that continues a wait for too short a time.
-/

namespace JiraSimulator

open Library Library.Outcome ScrumCollections

variable {p : Platform}

/-! ### Ticks that block every open visit -/

theorem getItem_of_mem {α κ : Type} [DecidableEq κ] {key : α → κ} {rows : List α} {a : α}
    (hnodup : (rows.map key).Nodup) (ha : a ∈ rows) : getItem key rows (key a) = .ok a := by
  have hfind := (Keyed.lookup_eq_some key hnodup).mpr ⟨ha, rfl⟩
  unfold Keyed.lookup at hfind
  unfold getItem
  rw [hfind]

/-- The visits are all blocked, and have work left. -/
def AllBlocked (blocked : List Uuid) (visits : List StatusVisitState) : Prop :=
  ∀ visit ∈ visits, visit.id ∈ blocked ∧ visit.remainingWorkMicroseconds ≠ 0

instance (blocked : List Uuid) (visits : List StatusVisitState) :
    Decidable (AllBlocked blocked visits) :=
  inferInstanceAs (Decidable (∀ _ ∈ _, _))

/-- The result of a tick in which no visit progresses. -/
def blockedResult (endsAt : ℤ) : TickResult where
  endsAt := endsAt
  visits := []
  workItems := []
  samples := []
  consumption := []
  claims := []
  queueCauses := []

section blocked

variable {working : LiveTeamState p} {calendar : BusinessCalendar} {blocked : List Uuid}

/-- A segment passes the blocked visits by. -/
theorem advanceSegment_of_blocked {visits : List StatusVisitState} (h : AllBlocked blocked visits)
    (consumption : Consumption) (segment : BusinessSegment) :
    advanceSegment working visits consumption segment blocked =
      .ok { visits, consumption, queueCauses := [] } := by
  have hfree : visits.filter (fun visit => visit.id ∉ blocked) = [] :=
    List.filter_eq_nil_iff.mpr fun visit hvisit => by simp [(h visit hvisit).1]
  have hall : visits.filter (fun visit => visit.id ∈ blocked) = visits :=
    List.filter_eq_self.mpr fun visit hvisit => by simp [(h visit hvisit).1]
  rw [advanceSegment, hfree, hall]
  rfl

/-- Visits with work left complete in no segment. -/
theorem completionBoundary_of_blocked {visits : List StatusVisitState}
    (h : AllBlocked blocked visits) (hnodup : (visits.map (·.id)).Nodup)
    (hwork : ∀ visit ∈ visits, visit.workItemId ∈ working.scrum.workItems.map (·.id))
    (segment : BusinessSegment) :
    completionBoundary working calendar segment visits visits = .ok none := by
  obtain ⟨pairs, hpairs⟩ : ∃ pairs, (visits.mapM fun visit => do
      let work ← getItem WorkItemState.id working.scrum.workItems visit.workItemId
      return (simulatorRank p work, visit)) = .ok pairs := by
    refine exists_mapM_eq_ok fun visit hvisit => ?_
    obtain ⟨work, hmem, hid⟩ := List.mem_map.mp (hwork visit hvisit)
    refine ⟨(simulatorRank p work, visit), ?_⟩
    rw [← hid, getItem_of_mem working.scrum.complete.keysUnique.workItems hmem]
    rfl
  have hranked : rankedVisits working visits =
      .ok ((Ordering.sortOn (·.1) pairs).map (·.2)) := by
    rw [rankedVisits, hpairs]
    rfl
  have hmem : ∀ visit ∈ (Ordering.sortOn (·.1) pairs).map (·.2), visit ∈ visits :=
    fun visit hvisit => (rankedVisits_perm hranked).mem_iff.mp hvisit
  -- no visit of the loop adds a candidate
  have hsearch : ∀ (rest : List StatusVisitState), (∀ visit ∈ rest, visit ∈ visits) → ∀ used,
      ∃ used', rest.foldlM (searchCompletion working calendar segment visits)
        { used, candidates := [] } = .ok { used := used', candidates := [] } := by
    intro rest
    induction rest with
    | nil => exact fun _ used => ⟨used, rfl⟩
    | cons visit rest ih =>
      intro hrest used
      have hvisit := hrest visit List.mem_cons_self
      have htouch : touchCompletion working segment visit visit used = .ok none :=
        if_pos (h visit hvisit).2
      have hstep : ∃ used', searchCompletion working calendar segment visits
          { used, candidates := [] } visit = .ok { used := used', candidates := [] } := by
        rw [searchCompletion, getItem_of_mem hnodup hvisit]
        simp only [ok_bind, htouch]
        exact ⟨_, rfl⟩
      obtain ⟨used', hstep⟩ := hstep
      rw [List.foldlM_cons, hstep]
      exact ih (fun other hother => hrest other (List.mem_cons_of_mem visit hother)) used'
  obtain ⟨used, hfold⟩ := hsearch _ hmem []
  rw [completionBoundary, hranked, ok_bind, hfold]
  rfl

theorem runSegments_of_blocked {visits : List StatusVisitState} (h : AllBlocked blocked visits)
    (hnodup : (visits.map (·.id)).Nodup)
    (hwork : ∀ visit ∈ visits, visit.workItemId ∈ working.scrum.workItems.map (·.id))
    (consumption : Consumption) (endsAt : ℤ) (segments : List BusinessSegment) :
    ∃ played, runSegments working calendar blocked endsAt segments visits consumption =
      .ok { visits, consumption, queueCauses := [], committedEnd := endsAt, played } := by
  induction segments with
  | nil => exact ⟨[], rfl⟩
  | cons segment segments ih =>
    obtain ⟨played, hrest⟩ := ih
    rw [runSegments, advanceSegment_of_blocked h]
    simp only [ok_bind, completionBoundary_of_blocked h hnodup hwork, hrest]
    exact ⟨_, rfl⟩

/-- The blocked visits stay as they are. -/
theorem finishVisits_of_blocked (h : AllBlocked blocked (openVisits working)) (endsAt : ℤ)
    (draws : DrawSource) :
    finishVisits working calendar (openVisits working) (openVisits working)
      (consumptionMap working) endsAt draws = .ok (blockedResult endsAt) := by
  have hnodup := openVisits_ids_nodup working
  -- a blocked visit is not complete, so it gives no rows
  have hfinish : ∀ visit ∈ openVisits working,
      finishVisit working calendar (openVisits working) endsAt draws visit = .ok {} := by
    intro visit hvisit
    have hmem := (mem_openVisits.mp hvisit).1
    obtain ⟨sample, hsample, hid⟩ := List.mem_map.mp (working.scrum.complete.visitSample visit hmem)
    have hremains : isComplete visit sample endsAt calendar = .ok false :=
      if_pos (h visit hvisit).2
    have hfound : getItem (·.visitId) working.scrum.statusVisitSamples visit.id = .ok sample :=
      hid ▸ getItem_of_mem working.scrum.complete.keysUnique.statusVisitSamples hsample
    simp only [finishVisit, hfound, ok_bind, hremains, Bool.false_eq_true, if_false,
      getItem_of_mem hnodup hvisit, ne_eq, not_true_eq_false]
    rfl
  have hfinished : (openVisits working).mapM
      (finishVisit working calendar (openVisits working) endsAt draws) =
        .ok ((openVisits working).map fun _ => {}) := by
    rw [mapM_eq_ok, List.forall₂_map_right_iff, List.forall₂_same]
    exact hfinish
  -- no capacity was consumed, so no consumption changed
  have hchanges : consumptionChanges working (consumptionMap working) = .ok [] := by
    have hnone : (Ordering.sortOn (fun entry => [entry.1.2, (p.uuidInt entry.1.1 : ℤ)])
        (consumptionMap working)).filter (fun entry => entry ∉ consumptionMap working) = [] := by
      refine List.filter_eq_nil_iff.mpr fun entry hentry => ?_
      simp [Ordering.mem_sortOn.mp hentry]
    rw [consumptionChanges, hnone]
    rfl
  have hflat : ∀ {α : Type} (rows : FinishedVisit → List α), rows {} = [] →
      ((openVisits working).map fun _ => ({} : FinishedVisit)).flatMap rows = [] := by
    intro α rows hnone
    refine List.flatMap_eq_nil_iff.mpr fun finished hfinished => ?_
    obtain ⟨-, -, rfl⟩ := List.mem_map.mp hfinished
    exact hnone
  rw [finishVisits, hfinished, ok_bind, hchanges, ok_bind, hflat _ rfl, hflat _ rfl, hflat _ rfl,
    hflat _ rfl]
  rfl

/-- An advance that blocks every open visit moves nothing but the clock. -/
theorem advanceForRisks_of_blocked {state : LiveTeamState p} {draws : DrawSource} {endsAt : ℤ}
    {risks : RiskRecords p} (hrisks : evaluateDueRisks state endsAt draws = .ok risks)
    (hworking : state.withWriteSet risks.state = .ok working)
    (hsegments : ∃ segments, businessSegments working calendar (cursor state) endsAt = .ok segments)
    (hblocked : AllBlocked (riskBlockedVisits state risks) (openVisits working)) :
    advanceForRisks state calendar draws endsAt =
      .ok { state := working, risks, result := blockedResult endsAt } := by
  obtain ⟨segments, hsegments⟩ := hsegments
  obtain ⟨played, hplayed⟩ := @runSegments_of_blocked _ working calendar _ _
    hblocked (openVisits_ids_nodup working)
    (fun visit hvisit => working.scrum.complete.visitWork visit (mem_openVisits.mp hvisit).1)
    (consumptionMap working) endsAt segments
  have hvisits : advanceVisits working endsAt segments calendar draws (riskBlockedVisits state risks) =
      .ok (blockedResult endsAt) := by
    simp only [advanceVisits, hplayed, ok_bind, finishVisits_of_blocked hblocked]
    rfl
  simp only [advanceForRisks, hrisks, ok_bind, hworking, hsegments, hvisits]
  rfl

end blocked

/-- A tick that blocks every open visit, without its segments. -/
def blockedTick (store : TeamStore p) (request : TickRequest) (draws : DrawSource) :
    Result (TeamStore p) := do
  validateRequest store.state request
  let transition ← crossSprintBoundary store.state (cursor store.state)
  require (transition.activity = []) "the tick crosses a boundary"
  let endsAt ← effectiveEnd store.state request.endsAt
  require (endsAt = request.endsAt) "the tick ends early"
  let risks ← evaluateDueRisks store.state request.endsAt draws
  let working ← store.state.withWriteSet risks.state
  require (AllBlocked (riskBlockedVisits store.state risks) (openVisits working))
    "a visit progresses"
  let command ← finalizeTick request
    { state := working, risks, result := blockedResult request.endsAt }
  commitAuthoritativeSlice store command

theorem blockedTick_eq_ok {store store' : TeamStore p} {request : TickRequest} {draws : DrawSource}
    {calendar : BusinessCalendar} (hloaded : store.Loaded)
    (hcalendar : store.state.calendar = .ok calendar)
    (hsegments : ∀ working : LiveTeamState p, ∃ segments,
      businessSegments working calendar (cursor store.state) request.endsAt = .ok segments)
    (h : blockedTick store request draws = .ok store') :
    stepTeam store (.tick request draws) = .ok store' := by
  simp only [blockedTick, bind_eq_ok, exists_unit, require_eq_ok] at h
  obtain ⟨hvalid, transition, hcross, hquiet, endsAt, hends, rfl, risks, hrisks, working, hworking,
    hblocked, command, hcommand, hcommit⟩ := h
  have hadvance := advanceForRisks_of_blocked hrisks hworking (hsegments working) hblocked
  have haware : riskAwareAdvance store.state calendar draws request.endsAt =
      .ok { state := working, risks, result := blockedResult request.endsAt } := by
    have hends : ¬ (blockedResult request.endsAt).endsAt < request.endsAt :=
      lt_irrefl request.endsAt
    simp only [riskAwareAdvance, riskAwareAdvanceFrom, hadvance, ok_bind, if_neg hends]
    rfl
  have htick : calculateScrumTick store.state request draws = .ok command := by
    simp only [calculateScrumTick, hvalid, hcross, ok_bind, hquiet, ne_eq, not_true_eq_false,
      if_false, tickAdvance, hcalendar, hends, haware, hcommand]
  simp only [stepTeam, hloaded.load, ok_bind, commandFor, htick]
  exact hcommit

/-! ### The waits of a run -/

/-- The pause of a visit lies within the wait of the rule for external dependencies, and is zero
without such a rule. -/
structure PauseFitsWait (store : TeamStore p) (visit : StatusVisitState) : Prop where
  le : ∀ rule ∈ store.aggregate.blueprint.risks.rules, rule.key = "EXTERNAL_DEPENDENCY" →
    ∀ wait, totalWait rule = .ok wait → visit.pauseMicroseconds ≤ wait
  zero : (∀ rule ∈ store.aggregate.blueprint.risks.rules, rule.key ≠ "EXTERNAL_DEPENDENCY") →
    visit.pauseMicroseconds = 0

/-- The tick adds the rest of the wait, as far as the tick is long. -/
def AddsRest (store store' : TeamStore p) (visit visit' : StatusVisitState) (wait : ℤ) : Prop :=
  visit'.pauseMicroseconds = visit.pauseMicroseconds +
    min (wait - visit.pauseMicroseconds) (cursor store'.state - cursor store.state)

/-- As far as the wait is long, the length of a tick is the one that it has in rounded seconds. -/
def RoundsWithin (rest length : ℤ) : Prop :=
  min rest (roundedMicroseconds length) = min rest length

/-- A wait or a tick of up to 35 years is rounded exactly. -/
theorem roundsWithin_of_le {rest length : ℤ} (hlength : 0 ≤ length)
    (h : rest ≤ 2 ^ 50 ∨ length ≤ 2 ^ 50) : RoundsWithin rest length := by
  unfold RoundsWithin
  by_cases hshort : length ≤ 2 ^ 50
  · rw [roundedMicroseconds_eq hlength hshort]
  · have hrest : rest ≤ 2 ^ 50 := h.resolve_right hshort
    have hmono := roundedMicroseconds_mono (show (0 : ℤ) ≤ 2 ^ 50 by norm_num)
      (not_le.mp hshort).le
    rw [roundedMicroseconds_eq (by norm_num) le_rfl] at hmono
    omega

theorem number_nonneg {rule : RiskRule} {key : String} {value : ℚ}
    (h : number rule key none = .ok value) : 0 ≤ value := by
  unfold number at h
  split at h
  case h_1 value _ =>
    split_ifs at h with hsign
    rw [← Except.ok.inj h]
    refine Rounding.roundToPrecision_nonneg ?_
    exact_mod_cast not_lt.mp hsign
  case h_2 value _ =>
    split_ifs at h with hsign
    rw [← Except.ok.inj h]
    exact not_lt.mp hsign
  case h_3 => cases h
  case h_4 hdefault => cases hdefault
  case h_5 => cases h

theorem totalWait_nonneg {rule : RiskRule} {wait : ℤ} (h : totalWait rule = .ok wait) :
    0 ≤ wait := by
  simp only [totalWait, map_eq_ok] at h
  obtain ⟨hours, hhours, rfl⟩ := h
  exact hoursToRoundedMicroseconds_nonneg (number_nonneg hhours)

theorem WaitsAccounted.fitsWait {store : TeamStore p} {visit : StatusVisitState}
    (haccounted : WaitsAccounted store visit) : PauseFitsWait store visit := by
  constructor
  · intro rule hrule hkey wait hwait
    by_cases hpause : visit.pauseMicroseconds = 0
    · rw [hpause]
      exact totalWait_nonneg hwait
    · obtain ⟨other, hother, hdependency, wait', hwait', hle⟩ := haccounted.fits hpause
      have hsame : other = rule := List.inj_on_of_nodup_map
        store.aggregate.blueprint.ruleKeys_nodup hother hrule (hdependency.key.trans hkey.symm)
      rw [hsame, hwait] at hwait'
      exact (Except.ok.inj hwait').symm ▸ hle
  · intro hnone
    by_contra hpause
    obtain ⟨rule, hrule, hdependency, -⟩ := haccounted.fits hpause
    exact hnone rule hrule hdependency.key

/-- In every run the visits whose status does not pause the service clock wait as recorded and no
longer than the rule lets them, and a tick continues a wait exactly when the rounded length of the
tick agrees with its length as far as the wait goes. -/
theorem dependency_waits {store : TeamStore p} (h : (teamRuns p).Reachable store) :
    (∀ visit ∈ store.scrum.statusVisits, intrinsicallyPaused store.state visit = .ok false →
      (startedEvents store.activity visit.id).length ≤ 1 ∧ PauseFitsWait store visit ∧
      waitTotal store.groundTruth visit.id = visit.pauseMicroseconds) ∧
    ∀ request draws store' visit visit' wait,
      WaitingTick store request draws store' visit visit' wait →
      (AddsRest store store' visit visit' wait ↔
        RoundsWithin (wait - visit.pauseMicroseconds)
          (cursor store'.state - cursor store.state)) := by
  have haccounted := accountedWaits_of_reachable h
  constructor
  · intro visit hvisit hruns
    have hwaits := haccounted.visits visit hvisit hruns
    exact ⟨hwaits.once, hwaits.fitsWait, hwaits.total⟩
  · intro request draws store' visit visit' wait htick
    have hpause := htick.pause_eq h
    obtain ⟨rule, hrule, hkey, hwait⟩ := htick.rule
    have hwaits := haccounted.visits visit htick.visit_mem htick.runs
    have hfits := hwaits.fitsWait.le rule hrule hkey wait hwait
    have hwithin : waitWithin wait visit.pauseMicroseconds
        (cursor store'.state - cursor store.state) =
          min (wait - visit.pauseMicroseconds)
            (roundedMicroseconds (cursor store'.state - cursor store.state)) := by
      unfold waitWithin
      rw [max_eq_right (by omega)]
    unfold AddsRest RoundsWithin
    rw [hpause, hwithin]
    exact add_right_inj _

/-! ### Two ticks of a wait -/

/-- The stores around a tick of a small team that waits since an hour, with the rows of the visit.
-/
def continuedWait (blueprint : ResolvedTeamBlueprint) (request : TickRequest) (wait : ℤ)
    (tick : TeamStore utcPlatform → TickRequest → DrawSource → Result (TeamStore utcPlatform)) :
    Result (TeamStore utcPlatform × TeamStore utcPlatform × StatusVisitState ×
      StatusVisitState) := do
  let store ← runTeam utcPlatform (startAfter blueprint 0) [tickUntil utcPlatform blueprint 1]
  let store' ← tick store request (teamDraws utcPlatform blueprint)
  let visit ← next (fun visit => visit.pauseMicroseconds ≠ 0) store.scrum.statusVisits
  let visit' ← next (fun visit' => visit'.id = visit.id) store'.scrum.statusVisits
  require (cursor store.state < cursor store'.state ∧
    intrinsicallyPaused store.state visit = .ok false ∧ visit'.lifecycle = .OPEN ∧
    ∃ rule ∈ store.aggregate.blueprint.risks.rules,
      rule.key = "EXTERNAL_DEPENDENCY" ∧ totalWait rule = .ok wait) "no wait continues"
  return (store, store', visit, visit')

theorem continuedWait_eq_ok {blueprint : ResolvedTeamBlueprint} {request : TickRequest} {wait : ℤ}
    {tick : TeamStore utcPlatform → TickRequest → DrawSource → Result (TeamStore utcPlatform)}
    {store store' : TeamStore utcPlatform} {visit visit' : StatusVisitState}
    (h : continuedWait blueprint request wait tick = .ok (store, store', visit, visit')) :
    (teamRuns utcPlatform).Reachable store ∧
      tick store request (teamDraws utcPlatform blueprint) = .ok store' ∧
      (stepTeam store (.tick request (teamDraws utcPlatform blueprint)) = .ok store' →
        WaitingTick store request (teamDraws utcPlatform blueprint) store' visit visit' wait) := by
  simp only [continuedWait, bind_eq_ok, exists_unit, require_eq_ok, pure_eq_ok] at h
  obtain ⟨_, hrun, _, htick, _, hvisit, _, hvisit', ⟨hpositive, hruns, hopen, hrule⟩, heq⟩ := h
  cases heq
  obtain ⟨hmem, hpaused⟩ := mem_of_next hvisit
  obtain ⟨hmem', hid⟩ := mem_of_next hvisit'
  exact ⟨reachable_of_runTeam hrun, htick, fun hstep => ⟨hstep, hpositive, hmem, hruns, hmem',
    of_decide_eq_true hid, hopen, hrule, of_decide_eq_true hpaused⟩⟩

/-- A wait of twenty hours goes on for an hour. -/
theorem dependency_waits_smallTeam :
    ∃ store store' visit visit', (teamRuns utcPlatform).Reachable store ∧
      WaitingTick store (requestUntil nightBlueprint 2) (teamDraws utcPlatform nightBlueprint) store'
        visit visit' (20 * microsecondsPerHour) ∧
      AddsRest store store' visit visit' (20 * microsecondsPerHour) := by
  obtain ⟨⟨store, store', visit, visit'⟩, h⟩ := exists_of_succeeds
    (continuedWait nightBlueprint (requestUntil nightBlueprint 2) (20 * microsecondsPerHour)
      fun store request draws => stepTeam store (.tick request draws)) (by decide +kernel)
  obtain ⟨hreach, hstep, htick⟩ := continuedWait_eq_ok h
  have hwaiting := htick hstep
  refine ⟨store, store', visit, visit', hreach, hwaiting, ?_⟩
  refine ((dependency_waits hreach).2 _ _ _ _ _ _ hwaiting).mpr (roundsWithin_of_le ?_ (.inl ?_))
  · have hpositive := hwaiting.positive
    omega
  · have hnonneg := (store.scrum.complete.visit_valid hwaiting.visit_mem).pause.1
    unfold microsecondsPerHour
    omega

/-! ### A tick of 136 years -/

/-- The small team with sprints of 60000 days, whose visits wait for three million hours. -/
def longDocument : BlueprintDocument :=
  let base := smallDocument
    [{ dependencyRule with mechanicalParameters := [("wait_hours", .int 3000000)] }] 0 0 0
  { base with
    scrum := { base.scrum with cadenceDays := 60000 }, timing := waitingDocument.timing }

theorem longDocument_accepted : longDocument.validate = .ok () := by
  decide +kernel

def longBlueprint : ResolvedTeamBlueprint where
  toBlueprintDocument := longDocument
  accepted := longDocument_accepted

/-- The length of a tick that is rounded to a microsecond less. -/
def longLength : ℤ := 4294967499328011

def longRequest : TickRequest :=
  let endsAt := firstMonday + microsecondsPerHour + longLength
  { teamId := .team longBlueprint.sha256, endsAt, recordedAt := endsAt }

theorem smallCalendar_defined {first last : ℤ} (hfirst : 0 ≤ first) (hlast : last ≤ 100000) :
    smallCalendar.DefinedBetween first last := by
  intro day hge hle
  -- the zone is UTC, so every local minute resolves to itself
  have hresolve : ∀ minute : ℕ, minute < 1440 → resolveLocal smallCalendar.timezone
      (BusinessCalendar.atMinute day minute) = .ok (BusinessCalendar.atMinute day minute) := by
    intro minute hminute
    have hrange : minInstant ≤ BusinessCalendar.atMinute day minute ∧
        BusinessCalendar.atMinute day minute ≤ maxInstant := by
      unfold minInstant maxInstant BusinessCalendar.atMinute microsecondsPerDay
      omega
    simp [resolveLocal, roundtripCandidate, toUtc, toLocal, smallCalendar, hrange]
  have hhorizon : day ≤ smallCalendar.holidayHorizonEnd := by
    show day ≤ 100000
    omega
  by_cases hfree : BusinessCalendar.weekday day ∉ smallCalendar.weekdayIndices ∨
      day ∈ smallCalendar.holidays
  · refine ⟨none, ?_⟩
    rw [BusinessCalendar.workingInterval, require, check_of hhorizon, ok_bind,
      if_pos hfree]
    rfl
  · refine ⟨some ⟨BusinessCalendar.atMinute day 540, BusinessCalendar.atMinute day 1020⟩, ?_⟩
    have hordered : BusinessCalendar.atMinute day 540 ≤ BusinessCalendar.atMinute day 1020 := by
      unfold BusinessCalendar.atMinute
      omega
    rw [BusinessCalendar.workingInterval, require, check_of hhorizon, ok_bind,
      if_neg hfree]
    show (do
      let start ← resolveLocal smallCalendar.timezone (BusinessCalendar.atMinute day 540)
      let finish ← resolveLocal smallCalendar.timezone (BusinessCalendar.atMinute day 1020)
      let interval ← UtcInterval.create start finish
      return some interval) = _
    rw [hresolve 540 (by norm_num), ok_bind, hresolve 1020 (by norm_num), ok_bind,
      UtcInterval.create, require, check_of hordered]
    rfl

/-- The business segments of the long tick exist. -/
theorem longSegments (working : LiveTeamState utcPlatform) : ∃ segments,
    businessSegments working smallCalendar (firstMonday + microsecondsPerHour)
      longRequest.endsAt = .ok segments := by
  have hcalendar := smallCalendar_built.divided utcPlatform_divided
  have hlast : smallCalendar.businessDate (longRequest.endsAt - 1) = .ok 69433 := by
    decide +kernel
  obtain ⟨dual, hdual⟩ := hcalendar.exists_elapsed
    (show firstMonday + microsecondsPerHour < longRequest.endsAt by decide)
    (show smallCalendar.businessDate (firstMonday + microsecondsPerHour) = .ok 19723 by
      decide +kernel)
    hlast (smallCalendar_defined (by norm_num) (by norm_num))
  refine exists_businessSegments working hdual fun hends => ?_
  have hdate := hlast.symm.trans hends.2
  exact absurd (Except.ok.inj hdate) (by decide)

/-- A wait that the long tick continues, in the stores around it. -/
def lostWait : Result (TeamStore utcPlatform × TeamStore utcPlatform × StatusVisitState ×
    StatusVisitState) := do
  let (store, store', visit, visit') ← continuedWait longBlueprint longRequest
    (3000000 * microsecondsPerHour) blockedTick
  require (cursor store.state = firstMonday + microsecondsPerHour ∧
    cursor store'.state = longRequest.endsAt ∧
    store.aggregate.blueprint.calendar = longDocument.calendar ∧
    store.aggregate.blueprint.team.timezone = "UTC" ∧
    visit.pauseMicroseconds = microsecondsPerHour ∧
    visit'.pauseMicroseconds = microsecondsPerHour + longLength - 1) "the wait is exact"
  return (store, store', visit, visit')

/-- A tick of 136 years continues the wait of 342 years, for a microsecond less than it takes. -/
theorem dependency_wait_loses :
    ∃ store store' visit visit', (teamRuns utcPlatform).Reachable store ∧
      WaitingTick store longRequest (teamDraws utcPlatform longBlueprint) store' visit visit'
        (3000000 * microsecondsPerHour) ∧
      ¬ AddsRest store store' visit visit' (3000000 * microsecondsPerHour) := by
  obtain ⟨result, h⟩ := exists_of_succeeds lostWait (by decide +kernel)
  simp only [lostWait, bind_eq_ok, exists_unit, require_eq_ok, pure_eq_ok] at h
  obtain ⟨⟨store, store', visit, visit'⟩, hcontinued,
    ⟨hcursor, hends, hcalendar, hzone, hpause, hpause'⟩, -⟩ := h
  obtain ⟨hreach, hblocked, htick⟩ := continuedWait_eq_ok hcontinued
  have hbuilt : store.state.calendar = .ok smallCalendar := by
    show BusinessCalendar.fromBlueprint _ store.aggregate.blueprint.team.timezone
      store.aggregate.blueprint.calendar = _
    rw [hcalendar, hzone]
    rfl
  have hwaiting := htick (blockedTick_eq_ok (Based.of_reachable hreach).loaded hbuilt
    (fun working => hcursor ▸ longSegments working) hblocked)
  refine ⟨store, store', visit, visit', hreach, hwaiting, fun hadds => ?_⟩
  unfold AddsRest at hadds
  rw [hpause, hpause', hcursor, hends] at hadds
  revert hadds
  decide

end JiraSimulator
