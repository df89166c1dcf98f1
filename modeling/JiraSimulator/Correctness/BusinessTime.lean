import JiraSimulator.Correctness.SegmentRuns
import JiraSimulator.Library.Intervals

/-!
# Business time

The segments of a tick cut the business time between its cursor and its end: they lie one after
another, and their lengths add up to the business time of the interval.  Time zones come from the
environment; all that is used of them is that wall-clock times and the instants that they name are
in one order.

* `businessSegments_total`: the segments of an interval add up to its business time.
* `runSegments_total`: a run that reaches the end of its interval has played all of it.
-/

namespace JiraSimulator

open Library Library.Outcome Library.Intervals

variable {p : Platform}

/-! ### Time zones -/

/-- Wall-clock times that name one instant each are in the order of these instants. -/
def TimeZone.Orderly (zone : TimeZone) : Prop :=
  ∀ early late first second, early ≤ late → resolveLocal zone early = .ok first →
    resolveLocal zone late = .ok second → first ≤ second

/-- Every time zone that the environment provides is orderly. -/
def Platform.OrderlyZones (p : Platform) : Prop :=
  ∀ name zone, p.timeZone name = some zone → zone.Orderly

/-- The workdays of the calendar follow one another. -/
structure BusinessCalendar.Orderly (calendar : BusinessCalendar) : Prop where
  within : ∀ day interval, calendar.workingInterval day = .ok (some interval) →
    interval.start ≤ interval.finish
  ordered : ∀ day later interval interval', day < later →
    calendar.workingInterval day = .ok (some interval) →
    calendar.workingInterval later = .ok (some interval') → interval.finish ≤ interval'.start

theorem resolveIanaTimezone_eq_ok {name : String} {zone : TimeZone}
    (h : resolveIanaTimezone p name = .ok zone) : p.timeZone name = some zone := by
  unfold resolveIanaTimezone at h
  cases hzone : p.timeZone name with
  | none => simp [hzone] at h
  | some other =>
    simp only [hzone] at h
    split_ifs at h
    rw [Except.ok.inj h]

theorem workingInterval_eq_ok {calendar : BusinessCalendar} {day : ℤ} {interval : UtcInterval}
    (h : calendar.workingInterval day = .ok (some interval)) :
    resolveLocal calendar.timezone (BusinessCalendar.atMinute day calendar.workdayStart) =
        .ok interval.start ∧
      resolveLocal calendar.timezone (BusinessCalendar.atMinute day calendar.workdayEnd) =
        .ok interval.finish ∧ interval.start ≤ interval.finish := by
  simp only [BusinessCalendar.workingInterval, bind_eq_ok, exists_unit, require_eq_ok] at h
  obtain ⟨-, h⟩ := h
  split_ifs at h
  · simp at h
  · simp only [UtcInterval.create, bind_eq_ok, exists_unit, require_eq_ok, pure_eq_ok] at h
    obtain ⟨start, hstart, finish, hfinish, created, ⟨hle, rfl⟩, heq⟩ := h
    cases heq
    exact ⟨hstart, hfinish, hle⟩

/-- A workday ends before the next date begins. -/
theorem atMinute_le {day later : ℤ} {finish start : ℕ} (hlater : day < later)
    (hfinish : finish < 1440) :
    BusinessCalendar.atMinute day finish ≤ BusinessCalendar.atMinute later start := by
  unfold BusinessCalendar.atMinute microsecondsPerDay
  omega

theorem workday_lt (blueprint : ResolvedTeamBlueprint) : blueprint.calendar.workdayEnd < 1440 := by
  have h := blueprint.accepted
  simp only [BlueprintDocument.validate, CalendarBlueprint.validate, bind_eq_ok, exists_unit,
    requireField_eq_ok] at h
  exact h.1.1.2

theorem calendar_orderly (hzones : p.OrderlyZones) {state : LiveTeamState p}
    {calendar : BusinessCalendar} (h : state.calendar = .ok calendar) : calendar.Orderly := by
  have hlt := workday_lt state.aggregate.blueprint
  simp only [LiveTeamState.calendar, BusinessCalendar.fromBlueprint, bind_eq_ok, exists_unit,
    require_eq_ok, pure_eq_ok] at h
  obtain ⟨-, -, zone, hzone, -, -, -, -, -, -, rfl⟩ := h
  constructor
  · intro day interval hday
    exact (workingInterval_eq_ok hday).2.2
  · intro day later interval interval' hlater hday hday'
    obtain ⟨-, hfinish, -⟩ := workingInterval_eq_ok hday
    obtain ⟨hstart, -, -⟩ := workingInterval_eq_ok hday'
    exact hzones _ _ (resolveIanaTimezone_eq_ok hzone) _ _ _ _ (atMinute_le hlater hlt)
      hfinish hstart

/-! ### The segments of one day -/

/-- The segments lie one after another in a window. -/
abbrev SegmentChain (startsAt endsAt : ℤ) (segments : List BusinessSegment) : Prop :=
  Chain BusinessSegment.start BusinessSegment.finish startsAt endsAt segments

/-- The time that the segments cover. -/
def segmentsTime (segments : List BusinessSegment) : ℤ :=
  total BusinessSegment.start BusinessSegment.finish segments

theorem availabilityBoundaries_sorted (state : LiveTeamState p) (startsAt endsAt : ℤ) :
    (availabilityBoundaries state startsAt endsAt).Pairwise (· ≤ ·) :=
  List.pairwise_insertionSort _ _

theorem ends_mem_availabilityBoundaries (state : LiveTeamState p) (startsAt endsAt : ℤ) :
    startsAt ∈ availabilityBoundaries state startsAt endsAt ∧
      endsAt ∈ availabilityBoundaries state startsAt endsAt := by
  simp [availabilityBoundaries]

/-- The segment of a date between two boundaries. -/
def segmentOn (date : ℤ) (pair : ℤ × ℤ) : BusinessSegment where
  businessDate := date
  start := pair.1
  finish := pair.2

/-- The segments between boundaries lie as the steps between them. -/
theorem chain_segments {startsAt endsAt : ℤ} (date : ℤ) {pairs : List (ℤ × ℤ)}
    (h : Chain Prod.fst Prod.snd startsAt endsAt pairs) :
    SegmentChain startsAt endsAt (pairs.map (segmentOn date)) where
  within segment hsegment := by
    obtain ⟨pair, hpair, rfl⟩ := List.mem_map.mp hsegment
    exact h.within pair hpair
  ordered := List.pairwise_map.mpr h.ordered

theorem segmentsTime_map (date : ℤ) (pairs : List (ℤ × ℤ)) :
    segmentsTime (pairs.map (segmentOn date)) = total Prod.fst Prod.snd pairs := by
  rw [segmentsTime, total, total, List.map_map]
  rfl

section days

variable {state : LiveTeamState p} {calendar : BusinessCalendar} {startsAt endsAt : ℤ}

/-- The segments of a day lie inside its workday and the interval, and cover their overlap. -/
theorem daySegments_total {day : ℤ} {segments : List BusinessSegment}
    (h : daySegments state calendar startsAt endsAt day = .ok segments) :
    SegmentChain startsAt endsAt segments ∧
      calendar.workingOverlap { start := startsAt, finish := endsAt } day =
        .ok (segmentsTime segments) ∧
      ∀ segment ∈ segments, ∃ working, calendar.workingInterval day = .ok (some working) ∧
        working.start ≤ segment.start ∧ segment.finish ≤ working.finish := by
  simp only [daySegments, bind_eq_ok] at h
  obtain ⟨working, hworking, h⟩ := h
  cases working with
  | none =>
    rw [pure_eq_ok] at h
    subst h
    refine ⟨.nil, ?_, by simp⟩
    rw [BusinessCalendar.workingOverlap, hworking, ok_bind]
    rfl
  | some working =>
    -- the window and the working hours of the day, cut where availability changes
    have hoverlap : calendar.workingOverlap { start := startsAt, finish := endsAt } day =
        .ok (max 0 (min endsAt working.finish - max startsAt working.start)) := by
      rw [BusinessCalendar.workingOverlap, hworking, ok_bind]
      rfl
    simp only at h
    by_cases hlt : max startsAt working.start < min endsAt working.finish
    · rw [if_pos hlt, pure_eq_ok] at h
      set boundaries := availabilityBoundaries state (max startsAt working.start)
        (min endsAt working.finish) with hboundaries
      have hsorted := availabilityBoundaries_sorted state (max startsAt working.start)
        (min endsAt working.finish)
      have hwithin : ∀ instant ∈ boundaries, max startsAt working.start ≤ instant ∧
          instant ≤ min endsAt working.finish :=
        fun instant hinstant => mem_availabilityBoundaries hinstant hlt.le
      obtain ⟨hstart, hfinish⟩ := ends_mem_availabilityBoundaries state
        (max startsAt working.start) (min endsAt working.finish)
      have hchain := chain_segments day (chain_steps hsorted hwithin)
      have htotal := total_steps hsorted hwithin hstart hfinish
      rw [← segmentsTime_map day] at htotal
      have hsegments : (steps boundaries).map (segmentOn day) = segments := h
      rw [hsegments] at hchain htotal
      refine ⟨hchain.mono (le_max_left _ _) (min_le_left _ _), ?_, fun segment hsegment => ?_⟩
      · rw [hoverlap, htotal, max_eq_right (by omega)]
      · have hsegment := hchain.within segment hsegment
        exact ⟨working, hworking, (le_max_right _ _).trans hsegment.1,
          hsegment.2.2.trans (min_le_right _ _)⟩
    · rw [if_neg hlt, pure_eq_ok] at h
      subst h
      refine ⟨.nil, ?_, by simp⟩
      rw [hoverlap, max_eq_left (by omega)]
      rfl

theorem daysFrom_pairwise (first last : ℤ) : (daysFrom first last).Pairwise (· < ·) := by
  rw [daysFrom, List.pairwise_map]
  refine List.pairwise_lt_range.imp fun hlt => ?_
  omega

/-- The segments of an interval lie one after another in it, and their lengths add up to its
business time. -/
theorem businessSegments_total (hcalendar : calendar.Orderly) (hle : startsAt ≤ endsAt)
    {segments : List BusinessSegment}
    (h : businessSegments state calendar startsAt endsAt = .ok segments) :
    SegmentChain startsAt endsAt segments ∧
      calendar.businessElapsed startsAt endsAt = .ok (segmentsTime segments) := by
  unfold businessSegments at h
  by_cases hempty : startsAt = endsAt
  · rw [if_pos hempty] at h
    cases h
    subst hempty
    refine ⟨.nil, ?_⟩
    simp [BusinessCalendar.businessElapsed, BusinessCalendar.elapsed, UtcInterval.create,
      DualElapsed.create, segmentsTime, require, check]
  rw [if_neg hempty] at h
  simp only [bind_eq_ok, exists_unit, pure_eq_ok] at h
  obtain ⟨firstDay, hfirst, finalDay, hfinal, lists, hlists, -, rfl⟩ := h
  have hchains : ∀ xs ∈ lists, SegmentChain startsAt endsAt xs := by
    intro xs hxs
    obtain ⟨day, -, hday⟩ := exists_of_mem_mapM hlists hxs
    exact (daySegments_total hday).1
  -- a later day starts after an earlier one ends
  have hordered : lists.Pairwise fun xs ys => ∀ x ∈ xs, ∀ y ∈ ys, x.finish ≤ y.start := by
    refine pairwise_of_mapM hlists (daysFrom_pairwise firstDay finalDay) ?_
    intro day later xs ys hlt hxs hys x hx y hy
    obtain ⟨working, hworking, -, hfinish⟩ := (daySegments_total hxs).2.2 x hx
    obtain ⟨working', hworking', hstart, -⟩ := (daySegments_total hys).2.2 y hy
    exact hfinish.trans ((hcalendar.ordered _ _ _ _ hlt hworking hworking').trans hstart)
  have hchain := Chain.flatten hchains hordered
  -- the two loops meet the same working hours, day by day
  have hoverlaps : (daysFrom firstDay finalDay).mapM
      (calendar.workingOverlap { start := startsAt, finish := endsAt }) =
        .ok (lists.map segmentsTime) := by
    rw [mapM_eq_ok, List.forall₂_map_right_iff]
    exact (mapM_eq_ok.mp hlists).imp fun day xs hxs => (daySegments_total hxs).2.1
  have htotal : (lists.map segmentsTime).sum = segmentsTime lists.flatten :=
    (total_flatten lists).symm
  have hnonneg : 0 ≤ segmentsTime lists.flatten := hchain.total_nonneg
  have hlength : segmentsTime lists.flatten ≤ endsAt - startsAt := hchain.total_le hle
  refine ⟨hchain, ?_⟩
  have hcreate : UtcInterval.create startsAt endsAt =
      .ok { start := startsAt, finish := endsAt } := by
    rw [UtcInterval.create, require, check_of hle, ok_bind]
    rfl
  have hlong : ¬ endsAt - startsAt = 0 := by omega
  rw [BusinessCalendar.businessElapsed, hcreate, ok_bind, BusinessCalendar.elapsed, if_neg hlong,
    hfirst, ok_bind, hfinal, ok_bind, hoverlaps, ok_bind, htotal, DualElapsed.create, require,
    check_of ⟨hnonneg.trans hlength, hnonneg, hlength⟩]
  rfl

/-! ### The time that a tick plays -/

/-- The time of the played segments. -/
def playedTime (played :
    List (BusinessSegment × List StatusVisitState × Consumption × SegmentAdvance)) : ℤ :=
  segmentsTime (played.map (·.1))

/-- A run that ends where its interval ends has played all of its business time. -/
theorem runSegments_total {blocked : List Uuid} {effectiveEnd : ℤ} {segments : List BusinessSegment}
    {visits : List StatusVisitState} {consumption : Consumption} {outcome : SegmentsOutcome}
    (h : runSegments state calendar blocked effectiveEnd segments visits consumption = .ok outcome)
    (hchain : SegmentChain startsAt effectiveEnd segments)
    (hend : outcome.committedEnd = effectiveEnd) :
    playedTime outcome.played = segmentsTime segments := by
  induction segments generalizing startsAt visits consumption outcome with
  | nil =>
    cases h
    rfl
  | cons segment segments ih =>
    simp only [runSegments, bind_eq_ok] at h
    obtain ⟨probe, -, boundary, hboundary, h⟩ := h
    have hhead := hchain.head
    cases boundary with
    | none =>
      simp only [bind_eq_ok, pure_eq_ok] at h
      obtain ⟨rest, hrest, rfl⟩ := h
      have htime := ih hrest hchain.tail hend
      simp only [playedTime, segmentsTime, List.map_cons, total_cons] at htime ⊢
      omega
    | some boundary =>
      -- the segment is cut at the end of the interval, so nothing follows it
      simp only [bind_eq_ok, pure_eq_ok] at h
      obtain ⟨advanced, -, rfl⟩ := h
      obtain ⟨-, hfinish⟩ := completionBoundary_eq_ok hboundary
      have hend : boundary = effectiveEnd := hend
      have htail := hchain.tail
      rw [show segment.finish = effectiveEnd by omega] at htail
      have hnone := htail.total_eq_zero
      simp only [playedTime, segmentsTime, List.map_cons, List.map_nil, total_cons, total_nil,
        hnone]
      omega

end days

end JiraSimulator
