import JiraSimulator.Correctness.TickSchedule

/-!
# The next working moment is the earliest one

`next_working_moment` looks thirty days ahead of the next day and returns the moment it was given
when it finds no working day there.  So it returns the earliest working instant exactly when the
next working day lies that close, its hours open ahead of the moment at the instant that the zone
gives for their start, and the clock is not set back into working hours before; and where it does so
from every moment, the ticks of a sprint are working instants, one later than the other, within the
sprint.

Main results:
* `nextWorkingMoment_earliest` : when the next working moment is the earliest working instant;
* `workingSchedules` : the same for all moments, together with the tick schedules;
* `workingSchedules_utc` : nine to five, Monday to Friday, in UTC;
* `longClosure_missed` : a closure of five weeks.
-/

namespace JiraSimulator.Engine

open Library Library.Outcome

variable {hours : WorkingHours}

/-! ### Working instants -/

/-- `is_working_time` holds. -/
def IsWorking (hours : WorkingHours) (instant : ℤ) : Prop :=
  InRange instant ∧ isWorkingTime hours instant = .ok true

/-- The earliest working instant from `after` on. -/
structure EarliestWorking (hours : WorkingHours) (after instant : ℤ) : Prop where
  ahead : after ≤ instant
  working : IsWorking hours instant
  first : ∀ u, after ≤ u → u < instant → ¬ IsWorking hours u

theorem isWorking_iff {instant : ℤ} : IsWorking hours instant ↔
    InRange instant ∧ InRange (hours.zone.fromUtc instant).1 ∧
      isWorkingDay hours (localDay hours.zone instant) = true ∧
      hours.startHour ≤ localHour hours.zone instant ∧
      localHour hours.zone instant < hours.endHour := by
  unfold IsWorking isWorkingTime localTime InRange
  by_cases hlocal : minInstant ≤ (hours.zone.fromUtc instant).1 ∧
      (hours.zone.fromUtc instant).1 ≤ maxInstant
  · simp only [hlocal, and_self, if_true, ok_bind, pure_eq_ok, isWorkingLocal, Bool.and_eq_true,
      decide_eq_true_eq, localDay, localHour, true_and]
  · simp only [hlocal, if_false, false_and, and_false, iff_false, not_and]
    intro _ h
    cases h

theorem isWorking_iff_local {instant : ℤ} : IsWorking hours instant ↔
    InRange instant ∧ InRange (hours.zone.fromUtc instant).1 ∧
      isWorkingLocal hours (hours.zone.fromUtc instant).1 = true := by
  rw [isWorking_iff]
  simp only [isWorkingLocal, Bool.and_eq_true, decide_eq_true_eq, localDay, localHour]

/-- The hours of the day open ahead of the moment: the instant that the zone gives for their start
is not behind it and shows working time, and until then the clock is neither set back into the hours
of today nor in the hours of that day. -/
structure OpensAhead (hours : WorkingHours) (after day : ℤ) : Prop where
  ahead : after ≤ opening hours after day
  working : IsWorking hours (opening hours after day)
  closed : ∀ x, after ≤ x → x < opening hours after day →
    localDay hours.zone x ≤ localDay hours.zone after ∨ day ≤ localDay hours.zone x →
      ¬ IsWorking hours x

/-- The moment is in working time; or its wall-clock time is a `datetime`, the working hours begin
at an hour of the day, and those of the next working day within reach open ahead of it. -/
def OpensWithinReach (hours : WorkingHours) (after : ℤ) : Prop :=
  IsWorking hours after ∨
    (InRange (hours.zone.fromUtc after).1 ∧ 0 ≤ hours.startHour ∧
      ∃ day, NextWorkingDay hours after day ∧ OpensAhead hours after day)

/-! ### What the search finds -/

/-- A working day within the days scanned is found, or an earlier one. -/
theorem exists_scanWorkingDay {days : ℕ} {first day : ℤ} (hday : isWorkingDay hours day = true)
    (hfirst : first ≤ day) (hnear : day < first + days) (hmax : day ≤ maxDate)
    (hnone : ∀ k, first ≤ k → k < day → isWorkingDay hours k = false) :
    scanWorkingDay hours days first = .ok (some day) := by
  induction days generalizing first with
  | zero =>
    simp only [Nat.cast_zero] at hnear
    omega
  | succ days ih =>
    unfold scanWorkingDay
    rcases hfirst.lt_or_eq with hlt | rfl
    · have hfree := hnone first le_rfl hlt
      rw [if_neg (by rw [hfree]; decide), nextDay, if_pos (by omega), ok_bind]
      exact ih (by omega) (by push_cast at hnear; omega) fun k hk => hnone k (by omega)
    · rw [if_pos hday]
      rfl

/-- A moment in working time is its own next working moment. -/
theorem IsWorking.nextWorkingMoment {moment : Moment} (h : IsWorking hours moment.instant) :
    nextWorkingMoment hours moment = .ok moment := by
  obtain ⟨-, hrange, hin⟩ := isWorking_iff_local.mp h
  have hwall : localTime hours.zone moment.instant = .ok (hours.zone.fromUtc moment.instant) :=
    if_pos hrange
  simp only [Engine.nextWorkingMoment, hwall, ok_bind]
  rw [if_pos hin]
  rfl

/-- The opening of the next working day is the earliest working instant: the days between are no
working days. -/
theorem NextWorkingDay.earliest {after day : ℤ} (h : NextWorkingDay hours after day)
    (hopens : OpensAhead hours after day) :
    EarliestWorking hours after (opening hours after day) := by
  refine ⟨hopens.ahead, hopens.working, fun u hu hlt hworks => ?_⟩
  by_cases hbetween : localDay hours.zone after < localDay hours.zone u ∧
      localDay hours.zone u < day
  · rcases h.next with ⟨rfl, -⟩ | ⟨-, -, -, hnone⟩
    · omega
    · have hfree := hnone _ hbetween.1 hbetween.2
      rw [(isWorking_iff.mp hworks).2.2.1] at hfree
      cases hfree
  · exact hopens.closed u hu hlt (by omega) hworks

/-- Outside working hours the search returns the opening of the next working day. -/
theorem NextWorkingDay.nextWorkingMoment {after : Moment} {day : ℤ}
    (h : NextWorkingDay hours after.instant day)
    (hnot : isWorkingLocal hours (hours.zone.fromUtc after.instant).1 = false)
    (hlocal : InRange (hours.zone.fromUtc after.instant).1)
    (hstart : 0 ≤ hours.startHour ∧ hours.startHour ≤ 23)
    (hopening : InRange (opening hours after.instant day)) :
    nextWorkingMoment hours after = .ok (.utc (opening hours after.instant day)) := by
  have hwall : localTime hours.zone after.instant = .ok (hours.zone.fromUtc after.instant) :=
    if_pos hlocal
  have hcandidate : ∀ d, atHour d hours.startHour = .ok (hourStart d hours.startHour) := by
    intro d
    simp only [atHour, require, check_of hstart, ok_bind]
    rfl
  simp only [Engine.nextWorkingMoment, hwall, ok_bind]
  rw [if_neg (by rw [hnot]; decide)]
  -- the day of the moment is still to open, or a later one is found
  rcases h.next with ⟨rfl, hhour⟩ | ⟨hlater, hnear, hstarted, hnone⟩
  · rw [if_pos ⟨h.working, hhour⟩]
    show (do
      let candidate ← atHour (localDay hours.zone after.instant) hours.startHour
      fromLocal hours.zone candidate (hours.zone.fromUtc after.instant).2) = _
    rw [hcandidate, ok_bind, fromLocal]
    simp only [opening, decide_true, Bool.true_and] at hopening ⊢
    exact if_pos hopening
  · rw [if_neg fun htoday => absurd (hstarted htoday.1) (not_le.mpr htoday.2)]
    have hdated := h.dated
    have htomorrow : nextDay (dateOf (hours.zone.fromUtc after.instant).1) =
        .ok (localDay hours.zone after.instant + 1) := by
      unfold nextDay
      rw [if_pos (by unfold localDay at hlater; omega)]
      rfl
    have hscan : scanWorkingDay hours maxLookaheadDays (localDay hours.zone after.instant + 1) =
        .ok (some day) :=
      exists_scanWorkingDay h.working (by omega) (by omega) hdated fun k hk =>
        hnone k (by omega)
    rw [htomorrow, ok_bind, hscan, ok_bind]
    show (do
      let candidate ← atHour day hours.startHour
      fromLocal hours.zone candidate false) = _
    have hne : day ≠ localDay hours.zone after.instant := by omega
    rw [hcandidate, ok_bind, fromLocal]
    simp only [opening, hne, decide_false, Bool.false_and] at hopening ⊢
    exact if_pos hopening

/-- Within reach, the search returns the earliest working instant. -/
theorem nextWorkingMoment_of_opens {after : Moment} (hrange : InRange after.instant)
    (h : OpensWithinReach hours after.instant) :
    ∃ moment, nextWorkingMoment hours after = .ok moment ∧
      EarliestWorking hours after.instant moment.instant := by
  by_cases hworking : IsWorking hours after.instant
  · exact ⟨after, hworking.nextWorkingMoment, le_rfl, hworking, fun u hu hlt =>
      absurd hlt (not_lt.mpr hu)⟩
  · obtain hin | ⟨hlocal, hmin, day, hday, hopens⟩ := h
    · exact absurd hin hworking
    have hnot : isWorkingLocal hours (hours.zone.fromUtc after.instant).1 = false := by
      by_contra hin
      exact hworking (isWorking_iff_local.mpr ⟨hrange, hlocal, Bool.not_eq_false _ ▸ hin⟩)
    obtain ⟨hopening, -, -, hstarted, -⟩ := isWorking_iff.mp hopens.working
    have hhour := localHour_mem hours.zone (opening hours after.instant day)
    exact ⟨_, hday.nextWorkingMoment hnot hlocal ⟨hmin, by omega⟩ hopening,
      hday.earliest hopens⟩

/-- A search that returns the earliest working instant had it within reach. -/
theorem opens_of_nextWorkingMoment {after moment : Moment}
    (h : nextWorkingMoment hours after = .ok moment)
    (hearliest : EarliestWorking hours after.instant moment.instant) :
    OpensWithinReach hours after.instant := by
  obtain ⟨hlocal, hnext⟩ := nextWorkingMoment_eq_ok h
  cases hnext with
  | working | none => exact .inl hearliest.working
  | opens day _ hstart hday =>
    exact .inr ⟨hlocal, hstart.1, day, hday, hearliest.ahead, hearliest.working,
      fun x hx hlt _ => hearliest.first x hx hlt⟩

/-- The next working moment is the earliest working instant exactly when that opens within reach. -/
theorem nextWorkingMoment_earliest {after : Moment} (hrange : InRange after.instant) :
    (∃ moment, nextWorkingMoment hours after = .ok moment ∧
      EarliestWorking hours after.instant moment.instant) ↔
      OpensWithinReach hours after.instant :=
  ⟨fun ⟨_, h, hearliest⟩ => opens_of_nextWorkingMoment h hearliest,
    nextWorkingMoment_of_opens hrange⟩

/-! ### Schedules -/

/-- From every moment, the next working moment is the earliest working instant, if there is one. -/
def NextMomentsEarliest (hours : WorkingHours) : Prop :=
  ∀ after : Moment, InRange after.instant →
    (∃ u, after.instant ≤ u ∧ IsWorking hours u) →
    ∃ moment, nextWorkingMoment hours after = .ok moment ∧
      EarliestWorking hours after.instant moment.instant

/-- The ticks of a sprint are working instants within the sprint, one later than the other, and with
ticks of some length the schedule ends; where there is working time after every moment that the
schedule asks for, from the start of the sprint to a tick after its end. -/
def SchedulesInWorkingTime (hours : WorkingHours) : Prop :=
  ∀ (sprintStart : Moment) (sprintLengthDays : ℤ) (tickDurationHours : ℚ) (sprintEnd : Moment)
    (tickDelta : ℤ), InRange sprintStart.instant →
    computeSprintEnd hours sprintStart sprintLengthDays = .ok sprintEnd →
    timedeltaHours tickDurationHours = .ok tickDelta →
    (∃ u, sprintStart.instant ≤ u ∧ sprintEnd.instant + tickDelta ≤ u ∧ IsWorking hours u) →
    (∀ fuel times, computeTickWallTimes hours fuel sprintStart sprintLengthDays tickDurationHours =
        .ok (some times) →
      (∀ time ∈ times, IsWorking hours time.instant ∧ sprintStart.instant ≤ time.instant ∧
        time.instant < sprintEnd.instant) ∧
      times.Pairwise fun a b => a.instant < b.instant) ∧
    (0 < tickDelta → ∃ enough, ∀ fuel, enough ≤ fuel → computeTickWallTimes hours fuel sprintStart
      sprintLengthDays tickDurationHours ≠ .ok none)

section schedule

variable {sprintEnd : Moment} {tickDelta : ℤ} (hnext : NextMomentsEarliest hours)

include hnext

theorem NextMomentsEarliest.earliest {after moment : Moment}
    (h : nextWorkingMoment hours after = .ok moment) (hrange : InRange after.instant)
    (hlater : ∃ u, after.instant ≤ u ∧ IsWorking hours u) :
    EarliestWorking hours after.instant moment.instant := by
  obtain ⟨moment', hmoment, hearliest⟩ := hnext after hrange hlater
  rw [h] at hmoment
  obtain rfl := Except.ok.inj hmoment
  exact hearliest

/-- From a working moment, a loop whose ticks have no length does not come further. -/
theorem tickTimesFrom_nonpos (hdelta : tickDelta ≤ 0) {fuel : ℕ} {current : Moment}
    (hworking : IsWorking hours current.instant) (hlt : current.instant < sprintEnd.instant)
    {times : Option (List Moment)}
    (h : tickTimesFrom hours sprintEnd tickDelta fuel current = .ok times) : times = none := by
  induction fuel generalizing current times with
  | zero =>
    cases h
    rfl
  | succ fuel ih =>
    rcases tickTimesFrom_succ h with
      ⟨hle, -⟩ | ⟨-, drifted, next, rest, hdrifted, hrange, hmoment, hrest, rfl⟩
    · exact absurd hlt (not_lt.mpr hle)
    -- the tick itself is working time, so the next one is not later
    have hback : drifted.instant ≤ current.instant := by omega
    have hearliest := hnext.earliest hmoment hrange ⟨_, hback, hworking⟩
    have hle : next.instant ≤ current.instant := by
      by_contra hpast
      exact hearliest.first _ hback (not_le.mp hpast) hworking
    rw [ih hearliest.working (hle.trans_lt hlt) hrest]
    rfl

/-- The ticks from a working moment. -/
theorem tickTimesFrom_working
    (hlater : ∃ u, sprintEnd.instant + tickDelta ≤ u ∧ IsWorking hours u) (hdelta : 0 < tickDelta)
    {fuel : ℕ} {current : Moment} (hworking : IsWorking hours current.instant)
    {times : List Moment}
    (h : tickTimesFrom hours sprintEnd tickDelta fuel current = .ok (some times)) :
    (∀ time ∈ times, IsWorking hours time.instant ∧ current.instant ≤ time.instant ∧
      time.instant < sprintEnd.instant) ∧ times.Pairwise fun a b => a.instant < b.instant := by
  induction fuel generalizing current times with
  | zero => cases h
  | succ fuel ih =>
    rcases tickTimesFrom_succ h with
      ⟨-, hnil⟩ | ⟨hlt, drifted, next, rest, hdrifted, hrange, hmoment, hrest, hcons⟩
    · cases hnil
      exact ⟨fun time htime => absurd htime List.not_mem_nil, .nil⟩
    cases rest with
    | none => cases hcons
    | some rest =>
      cases hcons
      obtain ⟨u, hu, hworks⟩ := hlater
      have hearliest := hnext.earliest hmoment hrange ⟨u, by omega, hworks⟩
      have hgrows := hearliest.ahead
      obtain ⟨hall, hpairwise⟩ := ih hearliest.working hrest
      refine ⟨fun time htime => ?_, .cons (fun time htime => ?_) hpairwise⟩
      · rcases List.mem_cons.mp htime with rfl | htime
        · exact ⟨hworking, le_rfl, hlt⟩
        · obtain ⟨hwork, hge, hend⟩ := hall time htime
          exact ⟨hwork, by omega, hend⟩
      · have := (hall time htime).2.1
        omega

/-- With ticks of some length every round comes closer to the end of the sprint. -/
theorem tickTimesFrom_ends
    (hlater : ∃ u, sprintEnd.instant + tickDelta ≤ u ∧ IsWorking hours u) (hdelta : 0 < tickDelta)
    {fuel : ℕ} {current : Moment} (henough : sprintEnd.instant - current.instant < fuel) :
    tickTimesFrom hours sprintEnd tickDelta (fuel + 1) current ≠ .ok none := by
  induction fuel generalizing current with
  | zero =>
    intro h
    rcases tickTimesFrom_succ h with ⟨-, hnil⟩ | ⟨hlt, -⟩
    · cases hnil
    · simp only [Nat.cast_zero] at henough
      omega
  | succ fuel ih =>
    intro h
    rcases tickTimesFrom_succ h with
      ⟨-, hnil⟩ | ⟨hlt, drifted, next, rest, hdrifted, hrange, hmoment, hrest, hmap⟩
    · cases hnil
    · obtain ⟨u, hu, hworks⟩ := hlater
      have hgrows := (hnext.earliest hmoment hrange ⟨u, by omega, hworks⟩).ahead
      cases rest with
      | some rest => cases hmap
      | none => exact ih (by push_cast at henough; omega) hrest

theorem schedulesInWorkingTime : SchedulesInWorkingTime hours := by
  intro sprintStart sprintLengthDays tickDurationHours sprintEnd tickDelta hstart hend hdelta hlater
  obtain ⟨u, hustart, huend, hworks⟩ := hlater
  constructor
  · intro fuel times h
    simp only [computeTickWallTimes, hend, hdelta, bind_eq_ok, ok_bind] at h
    obtain ⟨current, hcurrent, h⟩ := h
    have hearliest := hnext.earliest hcurrent hstart ⟨u, hustart, hworks⟩
    rcases lt_or_ge 0 tickDelta with hpos | hnonpos
    · obtain ⟨hall, hpairwise⟩ :=
        tickTimesFrom_working hnext ⟨u, huend, hworks⟩ hpos hearliest.working h
      refine ⟨fun time htime => ?_, hpairwise⟩
      obtain ⟨hwork, hge, hlt⟩ := hall time htime
      exact ⟨hwork, hearliest.ahead.trans hge, hlt⟩
    · -- without a length the loop ends only when the schedule is empty
      rcases tickTimesFrom_head h with ⟨rfl, -⟩ | ⟨rest, rfl⟩
      · exact ⟨fun time htime => absurd htime List.not_mem_nil, .nil⟩
      · have hlt : current.instant < sprintEnd.instant := by
          cases fuel with
          | zero => cases h
          | succ fuel =>
            rcases tickTimesFrom_succ h with ⟨-, hnil⟩ | ⟨hlt, -⟩
            · cases hnil
            · exact hlt
        cases tickTimesFrom_nonpos hnext hnonpos hearliest.working hlt h
  · intro hpos
    cases hcurrent : nextWorkingMoment hours sprintStart with
    | error e =>
      refine ⟨0, fun fuel _ h => ?_⟩
      simp only [computeTickWallTimes, hend, hdelta, hcurrent, ok_bind] at h
      cases h
    | ok current =>
      refine ⟨(sprintEnd.instant - current.instant).toNat + 2, fun fuel hfuel h => ?_⟩
      simp only [computeTickWallTimes, hend, hdelta, hcurrent, ok_bind] at h
      -- every tick takes the loop at least one instant further
      obtain ⟨fuel, rfl⟩ : ∃ k, fuel = k + 1 := ⟨fuel - 1, by omega⟩
      exact tickTimesFrom_ends hnext ⟨u, huend, hworks⟩ hpos (by omega) h

end schedule

/-- The next working moments are the earliest working instants, and the ticks of the sprints lie in
working time, exactly when working time opens within reach of every moment that has some ahead. -/
theorem workingSchedules {hours : WorkingHours} :
    (NextMomentsEarliest hours ∧ SchedulesInWorkingTime hours) ↔
      ∀ after, InRange after → (∃ u, after ≤ u ∧ IsWorking hours u) →
        OpensWithinReach hours after := by
  constructor
  · rintro ⟨hnext, -⟩ after hrange hlater
    exact nextWorkingMoment_earliest hrange |>.mp (hnext (.utc after) hrange hlater)
  · intro h
    have hnext : NextMomentsEarliest hours := fun after hrange hlater =>
      (nextWorkingMoment_earliest hrange).mpr (h after.instant hrange hlater)
    exact ⟨hnext, schedulesInWorkingTime hnext⟩

/-! ### Two offices in UTC -/

/-- Nine to five, Monday to Friday, in UTC. -/
def officeHours (holidays : List ℤ) : WorkingHours where
  zone := fixedZone 0
  startHour := 9
  endHour := 17
  holidays := holidays

theorem officeHours_working_iff {holidays : List ℤ} {instant : ℤ} :
    IsWorking (officeHours holidays) instant ↔ InRange instant ∧
      isWorkingDay (officeHours holidays) (dateOf instant) = true ∧
      9 ≤ hourOf instant ∧ hourOf instant < 17 := by
  rw [isWorking_iff]
  simp only [localDay, localHour, officeHours, fixedZone, add_zero]
  tauto

/-- Without holidays the working days are Monday to Friday. -/
theorem officeHours_workingDay_iff {day : ℤ} :
    isWorkingDay (officeHours []) day = true ↔ (day + 3) % 7 ≤ 4 := by
  simp only [isWorkingDay, officeHours, BusinessCalendar.weekday, defaultWorkingDays,
    List.not_mem_nil, not_false_eq_true, decide_true, Bool.and_true, decide_eq_true_eq,
    List.mem_cons, or_false]
  omega

theorem officeHours_opening {holidays : List ℤ} {after day : ℤ} :
    opening (officeHours holidays) after day =
      day * microsecondsPerDay + 9 * microsecondsPerHour := by
  simp [opening, officeHours, fixedZone, hourStart]

/-- The hours of the next working day open ahead of a moment outside working hours. -/
theorem officeHours_opensAhead {after day : ℤ} (hday : NextWorkingDay (officeHours []) after day)
    (hrange : InRange after) (hnot : ¬ IsWorking (officeHours []) after)
    (hopening : InRange (day * microsecondsPerDay + 9 * microsecondsPerHour)) :
    OpensAhead (officeHours []) after day := by
  have hworkday := officeHours_workingDay_iff.mp hday.working
  refine ⟨fixedZone_le_opening rfl hday (by decide), ?_, fun x hx hlt hdays hworks => ?_⟩
  · rw [officeHours_opening, officeHours_working_iff, officeHours_workingDay_iff]
    refine ⟨hopening, ?_⟩
    simp only [dateOf, hourOf, microsecondsPerDay, microsecondsPerHour] at hworkday ⊢
    omega
  · rw [officeHours_opening] at hlt
    rw [officeHours_working_iff] at hworks hnot
    obtain ⟨-, hxDay, hxStart, hxEnd⟩ := hworks
    have hnext := hday.next
    simp only [localDay, localHour, officeHours, fixedZone, add_zero] at hdays hnext
    -- a working instant before the opening is one of today, and so the moment is one as well
    have hsame : dateOf x = dateOf after := by
      simp only [dateOf, hourOf, microsecondsPerDay, microsecondsPerHour] at *
      omega
    have hstarted : 9 ≤ hourOf after := by
      rcases hnext with ⟨rfl, -⟩ | ⟨-, -, hstarted, -⟩
      · simp only [dateOf, hourOf, microsecondsPerDay, microsecondsPerHour] at *
        omega
      · exact hstarted (hsame ▸ hxDay)
    refine hnot ⟨hrange, hsame ▸ hxDay, hstarted, ?_⟩
    simp only [dateOf, hourOf, microsecondsPerDay, microsecondsPerHour] at *
    omega

/-- The next working moments of an office without holidays are the earliest working instants, and
its sprints tick in working time. -/
theorem workingSchedules_utc :
    NextMomentsEarliest (officeHours []) ∧ SchedulesInWorkingTime (officeHours []) := by
  refine workingSchedules.mpr fun after hrange ⟨u, hu, hworks⟩ => ?_
  by_cases hworking : IsWorking (officeHours []) after
  · exact .inl hworking
  have hlocal : InRange ((officeHours []).zone.fromUtc after).1 := by
    simpa [officeHours, fixedZone] using hrange
  refine .inr ⟨hlocal, by decide, ?_⟩
  have hclosed := hworking
  rw [officeHours_working_iff, officeHours_workingDay_iff] at hworks hclosed
  obtain ⟨huRange, huDay, huHour⟩ := hworks
  -- the next day from Monday to Friday is three days ahead at most
  obtain ⟨day, hday, hnext, hbetween⟩ : ∃ day, (day + 3) % 7 ≤ 4 ∧
      ((day = dateOf after ∧ hourOf after < 9) ∨
        (dateOf after < day ∧ day ≤ dateOf after + 3 ∧
          ((dateOf after + 3) % 7 ≤ 4 → 9 ≤ hourOf after))) ∧
      ∀ k, dateOf after < k → k < day → ¬ (k + 3) % 7 ≤ 4 := by
    by_cases htoday : (dateOf after + 3) % 7 ≤ 4 ∧ hourOf after < 9
    · exact ⟨dateOf after, htoday.1, .inl ⟨rfl, htoday.2⟩, fun k hk hlt => by omega⟩
    · have hweek : (dateOf after + 3) % 7 < 7 := by omega
      by_cases hfriday : (dateOf after + 3) % 7 = 4
      · exact ⟨dateOf after + 3, by omega, .inr ⟨by omega, by omega, fun h => by omega⟩,
          fun k hk hlt => by omega⟩
      by_cases hsaturday : (dateOf after + 3) % 7 = 5
      · exact ⟨dateOf after + 2, by omega, .inr ⟨by omega, by omega, fun h => by omega⟩,
          fun k hk hlt => by omega⟩
      · exact ⟨dateOf after + 1, by omega, .inr ⟨by omega, by omega, fun h => by omega⟩,
          fun k hk hlt => by omega⟩
  -- the working instant ahead is not before the opening
  have hopening : after ≤ day * microsecondsPerDay + 9 * microsecondsPerHour ∧
      day * microsecondsPerDay + 9 * microsecondsPerHour ≤ u := by
    have huBetween := hbetween (dateOf u)
    have hafter : (dateOf after + 3) % 7 ≤ 4 → ¬(9 ≤ hourOf after ∧ hourOf after < 17) :=
      fun h hhour => hclosed ⟨hrange, h, hhour⟩
    clear hworking hclosed hlocal
    simp only [dateOf, hourOf, microsecondsPerDay, microsecondsPerHour] at *
    omega
  have hopeningRange : InRange (day * microsecondsPerDay + 9 * microsecondsPerHour) :=
    ⟨hrange.1.trans hopening.1, hopening.2.trans huRange.2⟩
  have hdated : day ≤ maxDate := by
    have hle := dateOf_le_maxDate hopeningRange.2
    unfold dateOf at hle
    unfold microsecondsPerDay microsecondsPerHour at hle
    omega
  have hnextDay : NextWorkingDay (officeHours []) after day := by
    refine ⟨officeHours_workingDay_iff.mpr hday, hdated, ?_⟩
    simp only [localDay, localHour, officeHours, fixedZone, add_zero, maxLookaheadDays]
    rcases hnext with htoday | ⟨hlater, hnear, hstarted⟩
    · exact .inl htoday
    · refine .inr ⟨hlater, by omega, fun h => ?_, fun k hk hlt => ?_⟩
      · exact hstarted (officeHours_workingDay_iff.mp h)
      · exact Bool.eq_false_iff.mpr fun h => hbetween k hk hlt (officeHours_workingDay_iff.mp h)
  exact ⟨day, hnextDay, officeHours_opensAhead hnextDay hrange hworking hopeningRange⟩

/-- An office that closes for the five weeks after New Year's Day 1970. -/
def longClosure : WorkingHours :=
  officeHours (daysFrom 1 35)

/-- On the evening before, the next working moment is that evening, although the office opens again
in February. -/
theorem longClosure_missed : ¬ NextMomentsEarliest longClosure := by
  intro h
  have hevening : InRange (18 * microsecondsPerHour) := by
    unfold InRange
    decide
  have hopens : IsWorking longClosure (36 * microsecondsPerDay + 9 * microsecondsPerHour) := by
    rw [longClosure, officeHours_working_iff]
    exact ⟨by unfold InRange; decide, by decide, by decide, by decide⟩
  obtain ⟨moment, hmoment, hearliest⟩ := h (.utc (18 * microsecondsPerHour)) hevening
    ⟨_, by decide, hopens⟩
  have hsame : nextWorkingMoment longClosure (.utc (18 * microsecondsPerHour)) =
      .ok (.utc (18 * microsecondsPerHour)) := by decide
  rw [hsame] at hmoment
  cases hmoment
  have hworking := hearliest.working
  rw [longClosure, officeHours_working_iff] at hworking
  exact absurd hworking.2.2.2 (by decide)

end JiraSimulator.Engine
