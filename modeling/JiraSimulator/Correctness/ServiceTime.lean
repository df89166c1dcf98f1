import JiraSimulator.Correctness.BusinessTime
import JiraSimulator.Library.Elapsed

/-!
# Business time as time spent at work

The calendar adds up the overlaps of an interval with the working intervals of the dates between its
ends.  In time zones whose wall clocks keep the order of the instants around every instant that they
name uniquely, this is the time that the interval spends inside the working intervals of all dates,
so business times of consecutive intervals add up.

* `BusinessCalendar.businessElapsed_eq`: the business time of the calendar.
-/

namespace JiraSimulator

open Library Library.Outcome Library.Intervals Library.Rounding

variable {p : Platform}

/-! ### Time zones -/

/-- A wall-clock time that names one instant divides the instants: earlier ones show no later time
and later ones no earlier time. -/
def TimeZone.Divides (zone : TimeZone) : Prop :=
  ∀ naive instant, resolveLocal zone naive = .ok instant → ∀ other,
    (other ≤ instant → (zone.fromUtc other).1 ≤ naive) ∧
      (instant ≤ other → naive ≤ (zone.fromUtc other).1)

/-- Every time zone that the environment provides is divided by the times that it names. -/
def Platform.DividedZones (p : Platform) : Prop :=
  ∀ name zone, p.timeZone name = some zone → zone.Divides

theorem TimeZone.Divides.orderly {zone : TimeZone} (h : zone.Divides) : zone.Orderly := by
  intro early late first second hle hfirst hsecond
  by_contra hlt
  have hbefore := (h early first hfirst second).1 (by omega)
  have hafter := (h late second hsecond second).2 le_rfl
  have hshown := (h late second hsecond second).1 le_rfl
  have hsame : early = late := by omega
  subst hsame
  rw [hfirst] at hsecond
  cases hsecond
  omega

theorem Platform.DividedZones.orderly (h : p.DividedZones) : p.OrderlyZones :=
  fun name zone hzone => (h name zone hzone).orderly

/-! ### The working time of a calendar -/

/-- The instants inside the working intervals. -/
def BusinessCalendar.workingTime (calendar : BusinessCalendar) : Set ℤ :=
  { instant | ∃ day interval, calendar.workingInterval day = .ok (some interval) ∧
    interval.start ≤ instant ∧ instant < interval.finish }

/-- A calendar in a divided zone, whose workdays end before midnight. -/
structure BusinessCalendar.Divided (calendar : BusinessCalendar) : Prop where
  zone : calendar.timezone.Divides
  end_lt : calendar.workdayEnd < 1440
  ordered : calendar.workdayStart < calendar.workdayEnd

theorem calendar_divided (hzones : p.DividedZones) {state : LiveTeamState p}
    {calendar : BusinessCalendar} (h : state.calendar = .ok calendar) : calendar.Divided := by
  have hlt := workday_lt state.aggregate.blueprint
  simp only [LiveTeamState.calendar, BusinessCalendar.fromBlueprint, bind_eq_ok, exists_unit,
    require_eq_ok, pure_eq_ok] at h
  obtain ⟨hordered, -, zone, hzone, -, -, -, -, -, -, rfl⟩ := h
  exact ⟨hzones _ _ (resolveIanaTimezone_eq_ok hzone), hlt, hordered⟩

section divided

variable {calendar : BusinessCalendar} (hcalendar : calendar.Divided) {day instant date : ℤ}
  {interval : UtcInterval}

theorem businessDate_eq_ok (h : calendar.businessDate instant = .ok date) :
    date = dateOf (calendar.timezone.fromUtc instant).1 := by
  simp only [BusinessCalendar.businessDate, toLocal, bind_eq_ok, pure_eq_ok] at h
  obtain ⟨wall, hwall, rfl⟩ := h
  split_ifs at hwall
  cases hwall
  rfl

include hcalendar

/-- Before the end of the working interval of a date no later date has begun. -/
theorem BusinessCalendar.Divided.date_le
    (h : calendar.workingInterval day = .ok (some interval)) (hbefore : instant ≤ interval.finish) :
    dateOf (calendar.timezone.fromUtc instant).1 ≤ day := by
  obtain ⟨-, hfinish, -⟩ := workingInterval_eq_ok h
  have hwall := (hcalendar.zone _ _ hfinish instant).1 hbefore
  have hlt := hcalendar.end_lt
  unfold BusinessCalendar.atMinute microsecondsPerDay at hwall
  unfold dateOf microsecondsPerDay
  omega

/-- From the start of the working interval of a date on no earlier date is left. -/
theorem BusinessCalendar.Divided.le_date
    (h : calendar.workingInterval day = .ok (some interval)) (hafter : interval.start ≤ instant) :
    day ≤ dateOf (calendar.timezone.fromUtc instant).1 := by
  obtain ⟨hstart, -, -⟩ := workingInterval_eq_ok h
  have hwall := (hcalendar.zone _ _ hstart instant).2 hafter
  unfold BusinessCalendar.atMinute microsecondsPerDay at hwall
  unfold dateOf microsecondsPerDay
  omega

theorem BusinessCalendar.Divided.unique {later : ℤ} {interval' : UtcInterval}
    (h : calendar.workingInterval day = .ok (some interval))
    (h' : calendar.workingInterval later = .ok (some interval'))
    (hinstant : interval.start ≤ instant ∧ instant < interval.finish)
    (hinstant' : interval'.start ≤ instant ∧ instant < interval'.finish) : day = later := by
  have hle := hcalendar.date_le h hinstant.2.le
  have hge := hcalendar.le_date h hinstant.1
  have hle' := hcalendar.date_le h' hinstant'.2.le
  have hge' := hcalendar.le_date h' hinstant'.1
  omega

/-- The working interval of a date, empty where there is none. -/
def BusinessCalendar.workingIntervalOrEmpty (calendar : BusinessCalendar) (day : ℤ) : UtcInterval :=
  match calendar.workingInterval day with
  | .ok (some interval) => interval
  | _ => { start := 0, finish := 0 }

/-- The overlaps with the working intervals of the dates of an interval add up to the time spent
inside working intervals. -/
theorem BusinessCalendar.Divided.overlaps_sum {start finish firstDay finalDay : ℤ}
    {overlaps : List ℤ} (hfirst : calendar.businessDate start = .ok firstDay)
    (hfinal : calendar.businessDate (finish - 1) = .ok finalDay)
    (hoverlaps : (daysFrom firstDay finalDay).mapM
      (calendar.workingOverlap { start := start, finish := finish }) = .ok overlaps) :
    overlaps.sum = elapsedIn calendar.workingTime start finish := by
  set days := daysFrom firstDay finalDay with hdays
  set working : ℤ → UtcInterval := calendar.workingIntervalOrEmpty with hworking
  have hinterval : ∀ {day interval}, calendar.workingInterval day = .ok (some interval) →
      working day = interval := by
    intro day interval hday
    simp only [hworking, BusinessCalendar.workingIntervalOrEmpty, hday]
  have hlisted : ∀ {day}, (working day).start < (working day).finish →
      calendar.workingInterval day = .ok (some (working day)) := by
    intro day hlt
    cases hday : calendar.workingInterval day with
    | error e =>
      simp only [hworking, BusinessCalendar.workingIntervalOrEmpty, hday] at hlt
      omega
    | ok found =>
      cases found with
      | none =>
        simp only [hworking, BusinessCalendar.workingIntervalOrEmpty, hday] at hlt
        omega
      | some interval => rw [hinterval hday]
  have hsum : overlaps = days.map fun day =>
      max 0 (min finish (working day).finish - max start (working day).start) := by
    rw [mapM_eq_ok] at hoverlaps
    rw [← List.forall₂_eq_eq_eq, List.forall₂_map_right_iff]
    refine List.Forall₂.flip (hoverlaps.imp fun day overlap hoverlap => ?_)
    show overlap = max 0 (min finish (working day).finish - max start (working day).start)
    simp only [BusinessCalendar.workingOverlap, bind_eq_ok] at hoverlap
    obtain ⟨found, hfound, hoverlap⟩ := hoverlap
    cases found with
    | none =>
      cases hoverlap
      have hnone : working day = { start := 0, finish := 0 } := by
        simp only [hworking, BusinessCalendar.workingIntervalOrEmpty, hfound]
      rw [hnone]
      dsimp only
      omega
    | some interval =>
      cases hoverlap
      rw [hinterval hfound]
      rfl
  have hnodup : days.Nodup := (daysFrom_pairwise firstDay finalDay).imp fun hlt => hlt.ne
  rw [hsum]
  refine Eq.symm (elapsedIn_eq_sum (fun day => (working day).start)
    (fun day => (working day).finish) hnodup ?_ ?_)
  · intro instant hstart hfinish
    constructor
    · rintro ⟨day, interval, hday, hinstant⟩
      refine ⟨day, ?_, by rw [hinterval hday]; exact hinstant⟩
      -- the date lies between the dates of the ends
      have hbefore : firstDay ≤ day := by
        rw [businessDate_eq_ok hfirst]
        exact hcalendar.date_le hday (by omega)
      have hafter : day ≤ finalDay := by
        rw [businessDate_eq_ok hfinal]
        exact hcalendar.le_date hday (by omega)
      exact mem_daysFrom.mpr ⟨hbefore, hafter⟩
    · rintro ⟨day, -, hinstant⟩
      exact ⟨day, working day, hlisted (by omega), hinstant⟩
  · intro day _ later _ instant hstart hfinish hstart' hfinish'
    exact hcalendar.unique (hlisted (by omega)) (hlisted (by omega)) ⟨hstart, hfinish⟩
      ⟨hstart', hfinish'⟩

/-- The business time that the calendar computes is the time spent inside the working intervals. -/
theorem BusinessCalendar.Divided.businessElapsed_eq {start finish business : ℤ}
    (h : calendar.businessElapsed start finish = .ok business) :
    start ≤ finish ∧ business = elapsedIn calendar.workingTime start finish := by
  simp only [BusinessCalendar.businessElapsed, UtcInterval.create, bind_eq_ok, exists_unit,
    require_eq_ok, pure_eq_ok] at h
  obtain ⟨_, ⟨hle, rfl⟩, elapsed, helapsed, rfl⟩ := h
  refine ⟨hle, ?_⟩
  simp only [BusinessCalendar.elapsed] at helapsed
  by_cases hempty : finish - start = 0
  · rw [if_pos hempty] at helapsed
    simp only [DualElapsed.create, bind_eq_ok, exists_unit, pure_eq_ok] at helapsed
    obtain ⟨-, rfl⟩ := helapsed
    rw [elapsedIn_of_le (by omega)]
  rw [if_neg hempty] at helapsed
  simp only [DualElapsed.create, bind_eq_ok, exists_unit, pure_eq_ok] at helapsed
  obtain ⟨firstDay, hfirst, finalDay, hfinal, overlaps, hoverlaps, -, rfl⟩ := helapsed
  exact hcalendar.overlaps_sum hfirst hfinal hoverlaps

end divided

/-! ### Durations in microseconds -/

theorem floatOfInt_million : floatOfInt 1000000 = 1000000 := by
  decide +kernel

theorem roundedMicroseconds_mono {duration longer : ℤ} (h : 0 ≤ duration) (hle : duration ≤ longer) :
    roundedMicroseconds duration ≤ roundedMicroseconds longer := by
  unfold roundedMicroseconds pyRound fmul toDouble
  rw [floatOfInt_million]
  have hseconds : (0 : ℚ) ≤ (duration : ℚ) / 1000000 := by positivity
  have hle' : (duration : ℚ) / 1000000 ≤ (longer : ℚ) / 1000000 := by
    have : (duration : ℚ) ≤ longer := by exact_mod_cast hle
    exact div_le_div_of_nonneg_right this (by norm_num)
  have hdouble := roundToPrecision_mono (p := 53) (by norm_num) hseconds hle'
  have hnonneg := roundToPrecision_nonneg (p := 53) hseconds
  exact roundHalfEven_mono (roundToPrecision_mono (by norm_num) (by positivity) (by linarith))

/-- The doubles of Python count the microseconds of thirty-five years. -/
theorem roundedMicroseconds_eq {duration : ℤ} (h : 0 ≤ duration) (hle : duration ≤ 2 ^ 50) :
    roundedMicroseconds duration = duration := by
  unfold roundedMicroseconds pyRound fmul toDouble
  rw [floatOfInt_million]
  have hnonneg : (0 : ℚ) ≤ duration := by exact_mod_cast h
  have hbound : (duration : ℚ) ≤ 2 ^ 50 := by exact_mod_cast hle
  have hseconds : (0 : ℚ) ≤ (duration : ℚ) / 1000000 := by positivity
  have hfirst := abs_le.mp (abs_roundToPrecision_sub_le (p := 53) hseconds)
  have hseconds' := roundToPrecision_nonneg (p := 53) hseconds
  set seconds := roundToPrecision 53 ((duration : ℚ) / 1000000)
  have hsecond := abs_le.mp (abs_roundToPrecision_sub_le (p := 53)
    (q := seconds * 1000000) (by positivity))
  refine roundHalfEven_eq_of_abs_lt (abs_lt.mpr ⟨?_, ?_⟩) <;> linarith

end JiraSimulator
