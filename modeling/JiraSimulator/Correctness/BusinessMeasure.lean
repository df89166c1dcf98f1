import JiraSimulator.Correctness.PresencePauses

/-!
# Business time as a measure

The business time of an interval is the time that it spends inside the working intervals of the
calendar (`BusinessCalendar.Divided.businessElapsed_eq`), so it adds up over consecutive intervals,
grows with the interval and vanishes outside the working intervals.

* `elapsed_measure`: business time is an additive measure.
-/

namespace JiraSimulator

open Library Library.Outcome

variable {p : Platform} {calendar : BusinessCalendar}

/-- The calendar of a blueprint, whose times of the day are written as hours and minutes. -/
def BusinessCalendar.Built (p : Platform) (calendar : BusinessCalendar) : Prop :=
  ∃ name blueprint, BusinessCalendar.fromBlueprint p name blueprint = .ok calendar ∧
    blueprint.workdayEnd < 1440

theorem BusinessCalendar.Built.divided (hzones : p.DividedZones) (h : calendar.Built p) :
    calendar.Divided := by
  obtain ⟨name, blueprint, hbuilt, hlt⟩ := h
  simp only [BusinessCalendar.fromBlueprint, bind_eq_ok, exists_unit, require_eq_ok,
    pure_eq_ok] at hbuilt
  obtain ⟨hordered, -, zone, hzone, -, -, -, -, -, -, rfl⟩ := hbuilt
  exact ⟨hzones _ _ (resolveIanaTimezone_eq_ok hzone), hlt, hordered⟩

/-! ### Working intervals -/

/-- An instant that a wall-clock time names shows that time, which lies in the supported range. -/
theorem resolveLocal_shows {zone : TimeZone} {naive instant : ℤ}
    (h : resolveLocal zone naive = .ok instant) :
    (zone.fromUtc instant).1 = naive ∧ minInstant ≤ naive ∧ naive ≤ maxInstant := by
  obtain ⟨fold, hwall⟩ := resolveLocal_eq_ok h
  unfold toLocal at hwall
  dsimp only at hwall
  split_ifs at hwall with hrange
  rw [Except.ok.inj hwall] at hrange ⊢
  exact ⟨rfl, hrange⟩

/-- Working intervals are not empty. -/
theorem BusinessCalendar.Divided.start_lt (hcalendar : calendar.Divided) {day : ℤ}
    {working : UtcInterval} (h : calendar.workingInterval day = .ok (some working)) :
    working.start < working.finish := by
  obtain ⟨hstart, hfinish, hle⟩ := workingInterval_eq_ok h
  refine lt_of_le_of_ne hle fun heq => ?_
  have hshown := (resolveLocal_shows hstart).1
  rw [heq, (resolveLocal_shows hfinish).1] at hshown
  have hordered := hcalendar.ordered
  unfold BusinessCalendar.atMinute at hshown
  omega

/-- The instants of a working interval have its date, its end included. -/
theorem BusinessCalendar.Divided.businessDate_eq (hcalendar : calendar.Divided) {day instant : ℤ}
    {working : UtcInterval} (h : calendar.workingInterval day = .ok (some working))
    (hstart : working.start ≤ instant) (hfinish : instant ≤ working.finish) :
    calendar.businessDate instant = .ok day := by
  have hle := hcalendar.date_le h hfinish
  have hge := hcalendar.le_date h hstart
  obtain ⟨hfirst, hlast, -⟩ := workingInterval_eq_ok h
  have hwall := (hcalendar.zone _ _ hfirst instant).2 hstart
  have hwall' := (hcalendar.zone _ _ hlast instant).1 hfinish
  obtain ⟨-, hmin, -⟩ := resolveLocal_shows hfirst
  obtain ⟨-, -, hmax⟩ := resolveLocal_shows hlast
  rw [BusinessCalendar.businessDate, toLocal, if_pos ⟨by omega, by omega⟩, ok_bind]
  exact congrArg Except.ok (le_antisymm hle hge)

/-- A working interval meets the interior of an interval. -/
def BusinessCalendar.WorksInside (calendar : BusinessCalendar) (interval : UtcInterval) : Prop :=
  ∃ day working, calendar.workingInterval day = .ok (some working) ∧
    interval.start < interval.finish ∧ working.start < interval.finish ∧
    interval.start < working.finish

theorem BusinessCalendar.Divided.worksInside_iff (hcalendar : calendar.Divided)
    {interval : UtcInterval} : calendar.WorksInside interval ↔
      ∃ instant ∈ calendar.workingTime, interval.start ≤ instant ∧ instant < interval.finish := by
  constructor
  · rintro ⟨day, working, hworking, hproper, hstart, hfinish⟩
    have hlt := hcalendar.start_lt hworking
    exact ⟨max interval.start working.start, ⟨day, working, hworking, by omega, by omega⟩, by omega,
      by omega⟩
  · rintro ⟨instant, ⟨day, working, hworking, hstart, hfinish⟩, hafter, hbefore⟩
    exact ⟨day, working, hworking, by omega, by omega, by omega⟩

/-- Working intervals of later dates are later. -/
theorem BusinessCalendar.Divided.orderly (hcalendar : calendar.Divided) : calendar.Orderly where
  within day interval h := (workingInterval_eq_ok h).2.2
  ordered day later interval interval' hlater h h' := by
    obtain ⟨-, hfinish, -⟩ := workingInterval_eq_ok h
    obtain ⟨hstart, -, -⟩ := workingInterval_eq_ok h'
    exact hcalendar.zone.orderly _ _ _ _ (atMinute_le hlater hcalendar.end_lt) hfinish hstart

/-! ### The measure -/

/-- The clocks of an interval: its length and its time at work. -/
theorem BusinessCalendar.Divided.elapsed_eq (hcalendar : calendar.Divided) {interval : UtcInterval}
    {dual : DualElapsed} (hle : interval.start ≤ interval.finish)
    (h : calendar.elapsed interval = .ok dual) :
    dual.calendar = interval.finish - interval.start ∧
      dual.business = elapsedIn calendar.workingTime interval.start interval.finish := by
  constructor
  · simp only [BusinessCalendar.elapsed] at h
    by_cases hempty : interval.finish - interval.start = 0
    · rw [if_pos hempty] at h
      simp only [DualElapsed.create, bind_eq_ok, exists_unit, pure_eq_ok] at h
      obtain ⟨-, rfl⟩ := h
      exact hempty.symm
    · rw [if_neg hempty] at h
      simp only [DualElapsed.create, bind_eq_ok, exists_unit, pure_eq_ok] at h
      obtain ⟨-, -, -, -, -, -, -, rfl⟩ := h
      rfl
  · have hbusiness : calendar.businessElapsed interval.start interval.finish =
        .ok dual.business := by
      rw [BusinessCalendar.businessElapsed, UtcInterval.create, require, check_of hle, ok_bind,
        pure_bind, h]
      rfl
    exact (hcalendar.businessElapsed_eq hbusiness).2

/-- Business time is an additive measure: it adds up over consecutive intervals, is at most the
calendar time, vanishes exactly where no working interval meets the interior, and is no longer in
an interval inside. -/
theorem elapsed_measure (hzones : p.DividedZones) (hbuilt : calendar.Built p) {a b c : ℤ}
    (hab : a ≤ b) (hbc : b ≤ c) {first second whole : DualElapsed}
    (hfirst : calendar.elapsed ⟨a, b⟩ = .ok first) (hsecond : calendar.elapsed ⟨b, c⟩ = .ok second)
    (hwhole : calendar.elapsed ⟨a, c⟩ = .ok whole) :
    whole.business = first.business + second.business ∧
      0 ≤ whole.business ∧ whole.business ≤ whole.calendar ∧ whole.calendar = c - a ∧
      (whole.business = 0 ↔ ¬ calendar.WorksInside ⟨a, c⟩) ∧
      ∀ start finish inner, a ≤ start → start ≤ finish → finish ≤ c →
        calendar.elapsed ⟨start, finish⟩ = .ok inner → inner.business ≤ whole.business := by
  have hcalendar := hbuilt.divided hzones
  obtain ⟨-, hfirst⟩ := hcalendar.elapsed_eq hab hfirst
  obtain ⟨-, hsecond⟩ := hcalendar.elapsed_eq hbc hsecond
  obtain ⟨hlength, hwhole⟩ := hcalendar.elapsed_eq (hab.trans hbc) hwhole
  dsimp only at hfirst hsecond hlength hwhole
  refine ⟨?_, ?_, ?_, hlength, ?_, ?_⟩
  · rw [hfirst, hsecond, hwhole]
    exact elapsedIn_add hab hbc
  · rw [hwhole]
    exact elapsedIn_nonneg
  · rw [hwhole, hlength]
    exact elapsedIn_le_length (hab.trans hbc)
  · rw [hwhole, elapsedIn_eq_zero_iff, hcalendar.worksInside_iff]
    constructor
    · rintro hnone ⟨instant, hinstant, hstart, hfinish⟩
      exact hnone instant hstart hfinish hinstant
    · exact fun hnone instant hstart hfinish hinstant =>
        hnone ⟨instant, hinstant, hstart, hfinish⟩
  · intro start finish inner hstart hle hfinish hinner
    obtain ⟨-, hinner⟩ := hcalendar.elapsed_eq hle hinner
    rw [hinner, hwhole]
    exact elapsedIn_mono_interval hstart hfinish

/-! ### The calendar of the small team -/

/-- The calendar of the small team: eight hours from nine on, Monday to Friday, in UTC. -/
def smallCalendar : BusinessCalendar where
  timezone := { utcOffset := fun _ _ => 0, fromUtc := fun instant => (instant, false) }
  weekdayIndices := [0, 1, 2, 3, 4]
  workdayStart := 540
  workdayEnd := 1020
  holidayHorizonEnd := 100000
  holidays := []

theorem smallCalendar_built : smallCalendar.Built utcPlatform :=
  ⟨"UTC", (smallDocument [dependencyRule] 0 0 0).calendar, rfl, by decide⟩

/-- From the first Friday afternoon over Saturday to the next Monday morning. -/
theorem elapsed_measure_weekend :
    ∃ first second whole,
      smallCalendar.elapsed ⟨40 * microsecondsPerHour, 54 * microsecondsPerHour⟩ = .ok first ∧
      smallCalendar.elapsed ⟨54 * microsecondsPerHour, 106 * microsecondsPerHour⟩ = .ok second ∧
      smallCalendar.elapsed ⟨40 * microsecondsPerHour, 106 * microsecondsPerHour⟩ = .ok whole ∧
      whole.business = first.business + second.business ∧ whole.business ≤ whole.calendar := by
  obtain ⟨first, hfirst⟩ := exists_of_succeeds (smallCalendar.elapsed
    ⟨40 * microsecondsPerHour, 54 * microsecondsPerHour⟩) (by decide +kernel)
  obtain ⟨second, hsecond⟩ := exists_of_succeeds (smallCalendar.elapsed
    ⟨54 * microsecondsPerHour, 106 * microsecondsPerHour⟩) (by decide +kernel)
  obtain ⟨whole, hwhole⟩ := exists_of_succeeds (smallCalendar.elapsed
    ⟨40 * microsecondsPerHour, 106 * microsecondsPerHour⟩) (by decide +kernel)
  have hmeasure := elapsed_measure utcPlatform_divided smallCalendar_built (by decide) (by decide)
    hfirst hsecond hwhole
  exact ⟨first, second, whole, hfirst, hsecond, hwhole, hmeasure.1, hmeasure.2.2.1⟩

end JiraSimulator
