import JiraSimulator.Correctness.BusinessMeasure

/-!
# The cuts of the business segments

The segments of an interval cut its working time at the instants where an availability begins or
ends, so the fraction read at the start of a segment holds until its end.  The loop over the dates
steps beyond the last one, which fails on the last date that there is.

* `businessSegments_exact`: except there, the segments are exact.
* `lastDate_segments`: an hour of work on the last date.
-/

namespace JiraSimulator

open Library Library.Outcome Library.Intervals

variable {p : Platform} {state : LiveTeamState p} {calendar : BusinessCalendar}
  {startsAt endsAt : ℤ}

/-- The segments are exact: none is empty, they lie one after another, they cover the working time
of the interval and nothing else, each carries the date of its working interval, and no effective
fraction changes inside a segment. -/
structure ExactSegments (state : LiveTeamState p) (calendar : BusinessCalendar)
    (startsAt endsAt business : ℤ) (segments : List BusinessSegment) : Prop where
  proper : ∀ segment ∈ segments, segment.start < segment.finish
  ordered : segments.Pairwise fun earlier later => earlier.finish ≤ later.start
  covers : ∀ instant, (startsAt ≤ instant ∧ instant < endsAt ∧ instant ∈ calendar.workingTime) ↔
    ∃ segment ∈ segments, segment.start ≤ instant ∧ instant < segment.finish
  length : segmentsTime segments = business
  dated : ∀ segment ∈ segments, ∃ working,
    calendar.workingInterval segment.businessDate = .ok (some working) ∧
      working.start ≤ segment.start ∧ segment.finish ≤ working.finish
  businessDate : ∀ segment ∈ segments, ∀ instant, segment.start ≤ instant →
    instant < segment.finish → calendar.businessDate instant = .ok segment.businessDate
  constant : ∀ segment ∈ segments, ∀ other : BusinessSegment, segment.start ≤ other.start →
    other.start < segment.finish → ∀ identity,
      effectiveFraction state identity other = effectiveFraction state identity segment

/-! ### Availability -/

theorem availabilityBoundaries_strict (state : LiveTeamState p) (startsAt endsAt : ℤ) :
    (availabilityBoundaries state startsAt endsAt).Pairwise (· < ·) := by
  have hsorted := availabilityBoundaries_sorted state startsAt endsAt
  have hnodup : (availabilityBoundaries state startsAt endsAt).Nodup :=
    (List.perm_insertionSort _ _).nodup_iff.mpr (List.nodup_dedup _)
  exact hsorted.imp₂ (fun _ _ hle hne => lt_of_le_of_ne hle hne) hnodup

/-- An instant at which the availability of a member can change. -/
def AvailabilityChanges (state : LiveTeamState p) (instant : ℤ) : Prop :=
  (∃ member ∈ state.aggregate.blueprint.members, ∃ interval ∈ member.availability,
    instant = interval.startsAt ∨ instant = interval.endsAt) ∨
  ∃ overlay ∈ state.scrum.memberAvailabilityOverlays,
    instant = overlay.startsAt ∨ instant = overlay.endsAt

theorem AvailabilityChanges.mem_boundaries {instant : ℤ} (h : AvailabilityChanges state instant)
    (hstart : startsAt < instant) (hfinish : instant < endsAt) :
    instant ∈ availabilityBoundaries state startsAt endsAt := by
  simp only [availabilityBoundaries, List.mem_insertionSort, List.mem_dedup, List.mem_cons,
    List.mem_filter, List.mem_append, List.mem_flatMap, Bool.and_eq_true, decide_eq_true_eq]
  refine .inr (.inr ⟨?_, hstart, hfinish⟩)
  rcases h with ⟨member, hmember, interval, hinterval, heq⟩ | ⟨overlay, hoverlay, heq⟩
  · exact .inl ⟨member, hmember, interval, hinterval, by simpa using heq⟩
  · exact .inr ⟨overlay, hoverlay, by simpa using heq⟩

/-- Where nothing changes between the starts of two segments, both are covered or neither is. -/
theorem activeIn_eq {first last : ℤ} {segment other : BusinessSegment}
    (hle : segment.start ≤ other.start)
    (hfirst : first ≤ segment.start ∨ other.start < first)
    (hlast : last ≤ segment.start ∨ other.start < last) :
    activeIn first last other = activeIn first last segment := by
  unfold activeIn
  rw [← Bool.decide_and, ← Bool.decide_and, decide_eq_decide]
  omega

/-- The fraction of a member is the same wherever no availability changes in between. -/
theorem effectiveFraction_eq {segment other : BusinessSegment} (hle : segment.start ≤ other.start)
    (hsame : ∀ instant, AvailabilityChanges state instant →
      instant ≤ segment.start ∨ other.start < instant) (identity : MemberIdentity) :
    effectiveFraction state identity other = effectiveFraction state identity segment := by
  unfold effectiveFraction
  cases hmember : memberBlueprint state identity with
  | error e => rfl
  | ok member =>
    have hlisted : member ∈ state.aggregate.blueprint.members :=
      List.mem_of_getElem? (getIndex_eq_ok.mp hmember)
    have hconfigured : ∀ interval ∈ member.availability,
        activeIn interval.startsAt interval.endsAt other =
          activeIn interval.startsAt interval.endsAt segment := by
      intro interval hinterval
      exact activeIn_eq hle
        (hsame _ (.inl ⟨member, hlisted, interval, hinterval, .inl rfl⟩))
        (hsame _ (.inl ⟨member, hlisted, interval, hinterval, .inr rfl⟩))
    have hoverlays : ∀ overlay ∈ memberOverlays state identity.id,
        activeIn overlay.startsAt overlay.endsAt other =
          activeIn overlay.startsAt overlay.endsAt segment := by
      intro overlay hoverlay
      have hmem := List.mem_of_mem_filter hoverlay
      exact activeIn_eq hle (hsame _ (.inr ⟨overlay, hmem, .inl rfl⟩))
        (hsame _ (.inr ⟨overlay, hmem, .inr rfl⟩))
    have hfractions : activeFractions state member identity.id other =
        activeFractions state member identity.id segment := by
      unfold activeFractions
      rw [List.filter_congr hconfigured, List.filter_congr hoverlays]
    rw [ok_bind, ok_bind, hfractions]

/-! ### The cut of a workday -/

/-- The segment lies between two boundaries of its workday. -/
def CutFrom (state : LiveTeamState p) (calendar : BusinessCalendar) (startsAt endsAt : ℤ)
    (segment : BusinessSegment) : Prop :=
  ∃ working, calendar.workingInterval segment.businessDate = .ok (some working) ∧
    max startsAt working.start < min endsAt working.finish ∧
    (segment.start, segment.finish) ∈ steps (availabilityBoundaries state
      (max startsAt working.start) (min endsAt working.finish))

theorem daySegments_none {day : ℤ} (h : calendar.workingInterval day = .ok none) :
    daySegments state calendar startsAt endsAt day = .ok [] := by
  rw [daySegments, h, ok_bind]
  rfl

theorem daySegments_some {day : ℤ} {working : UtcInterval}
    (h : calendar.workingInterval day = .ok (some working)) :
    daySegments state calendar startsAt endsAt day =
      .ok (if max startsAt working.start < min endsAt working.finish then
        (steps (availabilityBoundaries state (max startsAt working.start)
          (min endsAt working.finish))).map (segmentOn day) else []) := by
  rw [daySegments, h, ok_bind]
  show (if _ then _ else _) = _
  split_ifs <;> rfl

theorem mem_daySegments {day : ℤ} {segments : List BusinessSegment} {segment : BusinessSegment}
    (h : daySegments state calendar startsAt endsAt day = .ok segments) :
    segment ∈ segments ↔ segment.businessDate = day ∧
      CutFrom state calendar startsAt endsAt segment := by
  cases hworking : calendar.workingInterval day with
  | error e =>
    rw [daySegments, hworking] at h
    cases h
  | ok found =>
    cases found with
    | none =>
      rw [daySegments_none hworking, Except.ok.injEq] at h
      subst h
      constructor
      · intro hmem
        cases hmem
      · rintro ⟨rfl, working, hworking', -⟩
        rw [hworking] at hworking'
        cases hworking'
    | some working =>
      rw [daySegments_some hworking, Except.ok.injEq] at h
      subst h
      constructor
      · intro hmem
        split_ifs at hmem with hlt
        · obtain ⟨pair, hpair, rfl⟩ := List.mem_map.mp hmem
          exact ⟨rfl, working, hworking, hlt, hpair⟩
        · cases hmem
      · rintro ⟨rfl, working', hworking', hlt, hpair⟩
        rw [hworking] at hworking'
        cases hworking'
        rw [if_pos hlt]
        exact List.mem_map.mpr ⟨_, hpair, rfl⟩

section cut

variable {segment : BusinessSegment}

theorem CutFrom.proper (h : CutFrom state calendar startsAt endsAt segment) :
    segment.start < segment.finish := by
  obtain ⟨working, -, -, hpair⟩ := h
  exact lt_of_mem_steps (availabilityBoundaries_strict state _ _) hpair

/-- A cut lies inside its working interval and the interval. -/
theorem CutFrom.within (h : CutFrom state calendar startsAt endsAt segment) :
    ∃ working, calendar.workingInterval segment.businessDate = .ok (some working) ∧
      max startsAt working.start ≤ segment.start ∧
      segment.finish ≤ min endsAt working.finish := by
  obtain ⟨working, hworking, hlt, hpair⟩ := h
  have hchain := chain_steps (availabilityBoundaries_sorted state (max startsAt working.start)
    (min endsAt working.finish)) fun instant hinstant => mem_availabilityBoundaries hinstant hlt.le
  have hwithin := hchain.within _ hpair
  exact ⟨working, hworking, hwithin.1, hwithin.2.2⟩

/-- No availability changes inside a cut. -/
theorem CutFrom.unchanged (h : CutFrom state calendar startsAt endsAt segment) {instant : ℤ}
    (hchange : AvailabilityChanges state instant) :
    instant ≤ segment.start ∨ segment.finish ≤ instant := by
  obtain ⟨working, hworking, hlt, hpair⟩ := h
  obtain ⟨working', hworking', hstart, hfinish⟩ := CutFrom.within ⟨working, hworking, hlt, hpair⟩
  rw [hworking] at hworking'
  cases hworking'
  by_cases hinside : max startsAt working.start < instant ∧ instant < min endsAt working.finish
  · exact le_or_le_of_mem_steps (availabilityBoundaries_sorted state _ _) hpair
      (hchange.mem_boundaries hinside.1 hinside.2)
  · omega

theorem CutFrom.constant (h : CutFrom state calendar startsAt endsAt segment)
    {other : BusinessSegment} (hstart : segment.start ≤ other.start)
    (hfinish : other.start < segment.finish) (identity : MemberIdentity) :
    effectiveFraction state identity other = effectiveFraction state identity segment := by
  refine effectiveFraction_eq hstart (fun instant hchange => ?_) identity
  rcases h.unchanged hchange with hbefore | hafter
  · exact .inl hbefore
  · exact .inr (by omega)

/-- Every instant of a cut has the date of its working interval. -/
theorem CutFrom.businessDate (hcalendar : calendar.Divided)
    (h : CutFrom state calendar startsAt endsAt segment) {instant : ℤ}
    (hstart : segment.start ≤ instant) (hfinish : instant < segment.finish) :
    calendar.businessDate instant = .ok segment.businessDate := by
  obtain ⟨working, hworking, hafter, hbefore⟩ := h.within
  exact hcalendar.businessDate_eq hworking (by omega) (by omega)

/-- The working time of an interval lies in the cuts. -/
theorem exists_cut {instant : ℤ} (hstart : startsAt ≤ instant) (hfinish : instant < endsAt)
    (h : instant ∈ calendar.workingTime) :
    ∃ segment, CutFrom state calendar startsAt endsAt segment ∧ segment.start ≤ instant ∧
      instant < segment.finish := by
  obtain ⟨day, working, hworking, hafter, hbefore⟩ := h
  have hends := ends_mem_availabilityBoundaries state (max startsAt working.start)
    (min endsAt working.finish)
  obtain ⟨pair, hpair, hcovers⟩ := exists_mem_steps (availabilityBoundaries_sorted state _ _)
    hends.1 hends.2 (show max startsAt working.start ≤ instant by omega) (by omega)
  exact ⟨segmentOn day pair, ⟨working, hworking, by omega, hpair⟩, hcovers⟩

end cut

/-! ### The segments of an interval -/

/-- The last instant of the interval lies on the last date that there is. -/
def EndsOnLastDate (calendar : BusinessCalendar) (startsAt endsAt : ℤ) : Prop :=
  startsAt ≠ endsAt ∧ calendar.businessDate (endsAt - 1) = .ok maxDate

theorem businessDate_le {instant date : ℤ} (h : calendar.businessDate instant = .ok date) :
    date ≤ maxDate := by
  simp only [BusinessCalendar.businessDate, toLocal, bind_eq_ok, pure_eq_ok] at h
  obtain ⟨wall, hwall, rfl⟩ := h
  split_ifs at hwall with hrange
  cases hwall
  unfold maxDate dateOf microsecondsPerDay
  omega

/-- Before the last date, segments exist wherever the elapsed time does. -/
theorem exists_businessSegments (state : LiveTeamState p) {dual : DualElapsed}
    (h : calendar.elapsed ⟨startsAt, endsAt⟩ = .ok dual)
    (hdate : ¬ EndsOnLastDate calendar startsAt endsAt) :
    ∃ segments, businessSegments state calendar startsAt endsAt = .ok segments := by
  unfold businessSegments
  by_cases hempty : startsAt = endsAt
  · exact ⟨[], if_pos hempty⟩
  · have hlong : ¬ endsAt - startsAt = 0 := by omega
    rw [BusinessCalendar.elapsed, if_neg hlong] at h
    simp only [bind_eq_ok] at h
    obtain ⟨firstDay, hfirst, finalDay, hfinal, overlaps, hoverlaps, -⟩ := h
    have hdays : ∀ day ∈ daysFrom firstDay finalDay,
        ∃ segments, daySegments state calendar startsAt endsAt day = .ok segments := by
      intro day hday
      obtain ⟨overlap, -, hoverlap⟩ := exists_of_mem_of_mapM hoverlaps hday
      simp only [BusinessCalendar.workingOverlap, bind_eq_ok] at hoverlap
      obtain ⟨found, hfound, -⟩ := hoverlap
      cases found with
      | none => exact ⟨_, daySegments_none hfound⟩
      | some working => exact ⟨_, daySegments_some hfound⟩
    obtain ⟨lists, hlists⟩ := exists_mapM_eq_ok hdays
    have hbefore : ¬ (firstDay ≤ finalDay ∧ finalDay = maxDate) := by
      rintro ⟨-, rfl⟩
      exact hdate ⟨hempty, hfinal⟩
    refine ⟨lists.flatten, ?_⟩
    rw [if_neg hempty, hfirst, ok_bind, hfinal, ok_bind, hlists, ok_bind, check_of hbefore]
    rfl

/-- The segments are the cuts of the workdays. -/
theorem mem_businessSegments (hcalendar : calendar.Divided) {segments : List BusinessSegment}
    (h : businessSegments state calendar startsAt endsAt = .ok segments) {segment : BusinessSegment} :
    segment ∈ segments ↔ CutFrom state calendar startsAt endsAt segment := by
  unfold businessSegments at h
  by_cases hempty : startsAt = endsAt
  · rw [if_pos hempty] at h
    cases h
    constructor
    · intro hmem
      cases hmem
    · rintro ⟨working, -, hlt, -⟩
      omega
  rw [if_neg hempty] at h
  simp only [bind_eq_ok, exists_unit, pure_eq_ok] at h
  obtain ⟨firstDay, hfirst, finalDay, hfinal, lists, hlists, -, rfl⟩ := h
  constructor
  · intro hmem
    obtain ⟨xs, hxs, hmem⟩ := List.mem_flatten.mp hmem
    obtain ⟨day, -, hday⟩ := exists_of_mem_mapM hlists hxs
    exact ((mem_daySegments hday).mp hmem).2
  · intro hcut
    obtain ⟨working, hworking, hstart, hfinish⟩ := hcut.within
    have hproper := hcut.proper
    -- its date lies between the dates of the ends
    have hbefore : firstDay ≤ segment.businessDate := by
      rw [businessDate_eq_ok hfirst]
      exact hcalendar.date_le hworking (by omega)
    have hafter : segment.businessDate ≤ finalDay := by
      rw [businessDate_eq_ok hfinal]
      exact hcalendar.le_date hworking (by omega)
    obtain ⟨xs, hxs, hday⟩ := exists_of_mem_of_mapM hlists (mem_daysFrom.mpr ⟨hbefore, hafter⟩)
    exact List.mem_flatten.mpr ⟨xs, hxs, (mem_daySegments hday).mpr ⟨rfl, hcut⟩⟩

/-- An interval with an elapsed time is cut exactly, unless it ends on the last date. -/
theorem businessSegments_exact (state : LiveTeamState p) (hzones : p.DividedZones)
    (hbuilt : calendar.Built p)
    (hle : startsAt ≤ endsAt) {dual : DualElapsed}
    (h : calendar.elapsed ⟨startsAt, endsAt⟩ = .ok dual) :
    (∃ segments, businessSegments state calendar startsAt endsAt = .ok segments ∧
      ExactSegments state calendar startsAt endsAt dual.business segments) ↔
    ¬ EndsOnLastDate calendar startsAt endsAt := by
  have hcalendar := hbuilt.divided hzones
  constructor
  · -- the loop steps past the last date and raises
    rintro ⟨segments, hsegments, -⟩ ⟨hne, hlast⟩
    rw [businessSegments, if_neg hne] at hsegments
    simp only [bind_eq_ok, exists_unit, check_eq_ok, hlast, Except.ok.injEq] at hsegments
    obtain ⟨firstDay, hfirst, _, rfl, -, -, hbefore, -⟩ := hsegments
    exact hbefore ⟨businessDate_le hfirst, rfl⟩
  · intro hdate
    obtain ⟨segments, hsegments⟩ := exists_businessSegments state h hdate
    have hcuts : ∀ {segment}, segment ∈ segments ↔ CutFrom state calendar startsAt endsAt segment :=
      mem_businessSegments hcalendar hsegments
    obtain ⟨hchain, htime⟩ := businessSegments_total hcalendar.orderly hle hsegments
    refine ⟨segments, hsegments, ?_, hchain.ordered, ?_, ?_, ?_, ?_, ?_⟩
    · exact fun segment hsegment => (hcuts.mp hsegment).proper
    · -- an instant is covered when it lies in a working interval
      intro instant
      constructor
      · rintro ⟨hstart, hfinish, hworking⟩
        obtain ⟨segment, hcut, hcovers⟩ := exists_cut hstart hfinish hworking
        exact ⟨segment, hcuts.mpr hcut, hcovers⟩
      · rintro ⟨segment, hsegment, hstart, hfinish⟩
        obtain ⟨working, hworking, hafter, hbefore⟩ := (hcuts.mp hsegment).within
        exact ⟨by omega, by omega, segment.businessDate, working, hworking, by omega, by omega⟩
    · rw [(hcalendar.elapsed_eq hle h).2, (hcalendar.businessElapsed_eq htime).2]
    · intro segment hsegment
      obtain ⟨working, hworking, hafter, hbefore⟩ := (hcuts.mp hsegment).within
      exact ⟨working, hworking, by omega, by omega⟩
    · exact fun segment hsegment instant hstart hfinish =>
        (hcuts.mp hsegment).businessDate hcalendar hstart hfinish
    · exact fun segment hsegment other hstart hfinish identity =>
        (hcuts.mp hsegment).constant hstart hfinish identity

/-- The segments from the first Friday afternoon to the next Monday morning. -/
theorem businessSegments_weekend :
    ∃ store dual segments, runTeam utcPlatform (startAfter waitingBlueprint 0) [] = .ok store ∧
      smallCalendar.elapsed ⟨40 * microsecondsPerHour, 106 * microsecondsPerHour⟩ = .ok dual ∧
      businessSegments store.state smallCalendar (40 * microsecondsPerHour)
        (106 * microsecondsPerHour) = .ok segments ∧
      ExactSegments store.state smallCalendar (40 * microsecondsPerHour)
        (106 * microsecondsPerHour) dual.business segments := by
  obtain ⟨store, hstore⟩ := exists_of_succeeds
    (runTeam utcPlatform (startAfter waitingBlueprint 0) []) (by decide +kernel)
  obtain ⟨dual, hdual⟩ := exists_of_succeeds (smallCalendar.elapsed
    ⟨40 * microsecondsPerHour, 106 * microsecondsPerHour⟩) (by decide +kernel)
  have hdate : smallCalendar.businessDate (106 * microsecondsPerHour - 1) = .ok 4 := by
    decide +kernel
  have hbefore : ¬ EndsOnLastDate smallCalendar (40 * microsecondsPerHour)
      (106 * microsecondsPerHour) := by
    rintro ⟨-, hlast⟩
    rw [hdate] at hlast
    exact absurd (Except.ok.inj hlast) (by decide)
  obtain ⟨segments, hsegments, hexact⟩ := (businessSegments_exact
    store.state utcPlatform_divided smallCalendar_built (by decide) hdual).mpr hbefore
  exact ⟨store, dual, segments, hstore, hdual, hsegments, hexact⟩

/-- The small team, whose holiday calendar reaches to the last date that there is. -/
def endlessDocument : BlueprintDocument :=
  { waitingDocument with
    calendar := { waitingDocument.calendar with holidayHorizonEnd := maxDate } }

theorem endlessDocument_accepted : endlessDocument.validate = .ok () := by
  decide +kernel

def endlessBlueprint : ResolvedTeamBlueprint where
  toBlueprintDocument := endlessDocument
  accepted := endlessDocument_accepted

/-- The tenth hour of the last date. -/
def lastHour : UtcInterval where
  start := maxDate * microsecondsPerDay + 9 * microsecondsPerHour
  finish := maxDate * microsecondsPerDay + 10 * microsecondsPerHour

/-- The first hour of work on the last date has an elapsed time but no segments. -/
theorem lastDate_segments :
    ∃ store calendar dual, runTeam utcPlatform (startAfter endlessBlueprint 0) [] = .ok store ∧
      store.state.calendar = .ok calendar ∧ calendar.elapsed lastHour = .ok dual ∧
      dual.business = microsecondsPerHour ∧
      businessSegments store.state calendar lastHour.start lastHour.finish =
        .error .overflowError := by
  have hrun : succeeds (do
      let store ← runTeam utcPlatform (startAfter endlessBlueprint 0) []
      let calendar ← store.state.calendar
      let dual ← calendar.elapsed lastHour
      require (dual.business = microsecondsPerHour ∧
        errorOf (businessSegments store.state calendar lastHour.start lastHour.finish) =
          some .overflowError) "the segments exist") = true := by
    decide +kernel
  obtain ⟨_, h⟩ := exists_of_succeeds _ hrun
  simp only [bind_eq_ok, require_eq_ok, errorOf_eq_some] at h
  obtain ⟨store, hstore, calendar, hcalendar, dual, hdual, hbusiness, herror⟩ := h
  exact ⟨store, calendar, dual, hstore, hcalendar, hdual, hbusiness, herror⟩

end JiraSimulator
