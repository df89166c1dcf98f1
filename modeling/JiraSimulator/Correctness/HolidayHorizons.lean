import JiraSimulator.Domain.UsFederalCalendar
import JiraSimulator.Library.PageTraversal

/-!
# Extending the horizon of the holidays

* `holidaysOf_mem_bounds`: a holiday is observed in its year or on the day before it.
* `holidaysBetween_spec`: a horizon holds every holiday between its dates once.
* `materialized_canonical`: the horizon of a new team.
* `catchUpEnd_comp`: catching up twice is catching up with the later date.
* `extend_comp`: so is extending twice.
* `horizon_extension`: the laws of an extension.
-/

namespace JiraSimulator

open Library Library.Outcome Library.Gregorian

/-! ### The holidays of a year -/

/-- The days of `_nth_weekday`, in any year. -/
def nthWeekdayOf (year : ℤ) (month : ℕ) (weekday ordinal : ℤ) : ℤ :=
  dayOf year month 1 + ((weekday - weekdayOf (dayOf year month 1)) % 7 + (ordinal - 1) * 7)

/-- The days of `_last_weekday`, in any year. -/
def lastWeekdayOf (year : ℤ) (month : ℕ) (weekday : ℤ) : ℤ :=
  let last := dayOf year month (daysInMonth year month)
  last - (weekdayOf last - weekday) % 7

/-- The holidays of any year. -/
def holidaysOf (year : ℤ) : List ℤ :=
  fixedDates.map (fun rule => observed (dayOf year rule.1 rule.2)) ++
    [nthWeekdayOf year 1 0 3, nthWeekdayOf year 2 0 3, lastWeekdayOf year 5 0,
      nthWeekdayOf year 9 0 1, nthWeekdayOf year 10 0 2, nthWeekdayOf year 11 3 4]

/-- The years of the calendar. -/
def IsCalendarYear (year : ℤ) : Prop :=
  1 ≤ year ∧ year ≤ 9999

theorem calendarDate_eq {year : ℤ} (h : IsCalendarYear year) (month : ℕ) (day : ℤ) :
    calendarDate year month day = .ok (dayOf year month day) := by
  have hyear : require (1 ≤ year ∧ year ≤ 9999) "year is out of range" = .ok () :=
    require_eq_ok.mpr h
  simp only [calendarDate, hyear, ok_bind]
  rfl

theorem holidaysForYear_eq {year : ℤ} (h : IsCalendarYear year) :
    holidaysForYear year = .ok (holidaysOf year) := by
  have hfixed : fixedHolidays year =
      .ok (fixedDates.map fun rule => observed (dayOf year rule.1 rule.2)) := by
    simp only [fixedHolidays, fixedDates, calendarDate_eq h]
    rfl
  simp only [holidaysForYear, hfixed, nthWeekday, lastWeekday, calendarDate_eq h, ok_bind,
    pure_bind]
  rfl

theorem isCalendarYear_of_holidays {year : ℤ} {days : List ℤ}
    (h : holidaysForYear year = .ok days) : IsCalendarYear year := by
  simp only [holidaysForYear, nthWeekday, calendarDate, bind_eq_ok, exists_unit,
    require_eq_ok] at h
  obtain ⟨fixed, -, mlkDay, ⟨first, ⟨hyear, -⟩, -⟩, -⟩ := h
  exact hyear

theorem observed_mem (day : ℤ) : day - 1 ≤ observed day ∧ observed day ≤ day + 1 := by
  unfold observed
  split_ifs <;> omega

theorem nthWeekdayOf_mem (year : ℤ) (month : ℕ) (weekday ordinal : ℤ) :
    dayOf year month 1 + (ordinal - 1) * 7 ≤ nthWeekdayOf year month weekday ordinal ∧
      nthWeekdayOf year month weekday ordinal < dayOf year month 1 + ordinal * 7 := by
  unfold nthWeekdayOf
  generalize weekdayOf (dayOf year month 1) = first
  omega

theorem lastWeekdayOf_mem (year : ℤ) (month : ℕ) (weekday : ℤ) :
    dayOf year month (daysInMonth year month) - 6 ≤ lastWeekdayOf year month weekday ∧
      lastWeekdayOf year month weekday ≤ dayOf year month (daysInMonth year month) := by
  unfold lastWeekdayOf
  dsimp only
  generalize weekdayOf (dayOf year month (daysInMonth year month)) = last
  omega

/-- A holiday is observed in its year, or on the last day of the year before. -/
theorem holidaysOf_mem_bounds {year day : ℤ} (h : day ∈ holidaysOf year) :
    newYearsDay year - 1 ≤ day ∧ day < newYearsDay (year + 1) - 1 := by
  have hleap := leapDay_nonneg year
  have hleap' := leapDay_le year
  rw [newYearsDay_succ]
  simp only [holidaysOf, fixedDates, List.map_cons, List.map_nil, List.cons_append,
    List.nil_append, List.mem_cons, List.not_mem_nil, or_false] at h
  -- an observed day moves by one, so only the first of January can leave the year
  rcases h with rfl | rfl | rfl | rfl | rfl | rfl | rfl | rfl | rfl | rfl | rfl
  · have hday := observed_mem (dayOf year 1 1)
    simp only [dayOf, daysBeforeMonth] at hday ⊢
    omega
  · have hday := observed_mem (dayOf year 6 19)
    simp only [dayOf, daysBeforeMonth] at hday ⊢
    omega
  · have hday := observed_mem (dayOf year 7 4)
    simp only [dayOf, daysBeforeMonth] at hday ⊢
    omega
  · have hday := observed_mem (dayOf year 11 11)
    simp only [dayOf, daysBeforeMonth] at hday ⊢
    omega
  · have hday := observed_mem (dayOf year 12 25)
    simp only [dayOf, daysBeforeMonth] at hday ⊢
    omega
  · have hday := nthWeekdayOf_mem year 1 0 3
    simp only [dayOf, daysBeforeMonth] at hday ⊢
    omega
  · have hday := nthWeekdayOf_mem year 2 0 3
    simp only [dayOf, daysBeforeMonth] at hday ⊢
    omega
  · have hday := lastWeekdayOf_mem year 5 0
    simp only [dayOf, daysInMonth, daysBeforeMonth] at hday ⊢
    omega
  · have hday := nthWeekdayOf_mem year 9 0 1
    simp only [dayOf, daysBeforeMonth] at hday ⊢
    omega
  · have hday := nthWeekdayOf_mem year 10 0 2
    simp only [dayOf, daysBeforeMonth] at hday ⊢
    omega
  · have hday := nthWeekdayOf_mem year 11 3 4
    simp only [dayOf, daysBeforeMonth] at hday ⊢
    omega

/-! ### The holidays between two dates -/

theorem sortedSet_eq_rest (days : List ℤ) :
    sortedSet days = Paging.rest (fun day => day) none days.dedup := by
  have hall : days.dedup.filter (fun day => Paging.Beyond none day) = days.dedup := by
    refine List.filter_eq_self.mpr fun day _ => ?_
    exact decide_eq_true fun c hc => by cases hc
  unfold sortedSet Paging.rest
  rw [hall]

theorem dedup_unique (days : List ℤ) : (days.dedup.map fun day => day).Nodup := by
  rw [List.map_id']
  exact List.nodup_dedup days

theorem sortedSet_sorted (days : List ℤ) : (sortedSet days).Pairwise (· < ·) := by
  rw [sortedSet_eq_rest]
  exact Paging.rest_sorted (dedup_unique days)

theorem mem_sortedSet {days : List ℤ} {day : ℤ} : day ∈ sortedSet days ↔ day ∈ days := by
  rw [sortedSet, Ordering.mem_sortOn, List.mem_dedup]

/-- A sorted set is the only sorted list of its elements. -/
theorem sortedSet_eq {days l : List ℤ} (hsorted : l.Pairwise (· < ·))
    (hmem : ∀ day, day ∈ l ↔ day ∈ days) : sortedSet days = l := by
  rw [sortedSet_eq_rest]
  refine Paging.rest_eq (dedup_unique days) hsorted fun day => ?_
  rw [hmem, List.mem_dedup]
  exact (and_iff_left fun c hc => by cases hc).symm

/-- The days are the holidays of all years between two dates, each of them once and in order. -/
structure HolidaysOn (startsOn endsOn : ℤ) (days : List ℤ) : Prop where
  sorted : days.Pairwise (· < ·)
  mem_iff : ∀ day, day ∈ days ↔ startsOn ≤ day ∧ day ≤ endsOn ∧
    ∃ year, IsCalendarYear year ∧ day ∈ holidaysOf year

theorem HolidaysOn.unique {startsOn endsOn : ℤ} {days days' : List ℤ}
    (h : HolidaysOn startsOn endsOn days) (h' : HolidaysOn startsOn endsOn days') :
    days = days' := by
  have hself : sortedSet days = days := sortedSet_eq h.sorted fun _ => Iff.rfl
  rw [← hself]
  exact sortedSet_eq h'.sorted fun day => (h'.mem_iff day).trans (h.mem_iff day).symm

/-- A holiday between two dates belongs to a year that is looked at. -/
theorem year_mem_of_holiday {startsOn endsOn day year : ℤ} (hday : day ∈ holidaysOf year)
    (hlow : startsOn ≤ day) (hhigh : day ≤ endsOn) :
    yearOf startsOn - 1 ≤ year ∧ year ≤ yearOf endsOn + 1 := by
  obtain ⟨hafter, hbefore⟩ := holidaysOf_mem_bounds hday
  have hstart := (yearOf_mem startsOn).1
  have hend := (yearOf_mem endsOn).2
  have hfirst : yearOf startsOn < year + 1 :=
    newYearsDay_strictMono.lt_iff_lt.mp (by omega)
  have hlast : year ≤ yearOf endsOn + 1 :=
    newYearsDay_strictMono.le_iff_le.mp (by omega)
  omega

/-- The years that are looked at are years of the calendar. -/
def YearsInRange (startsOn endsOn : ℤ) : Prop :=
  ∀ year, yearOf startsOn - 1 ≤ year → year ≤ yearOf endsOn + 1 → IsCalendarYear year

theorem holidaysBetween_spec {startsOn endsOn : ℤ} {days : List ℤ}
    (h : holidaysBetween startsOn endsOn = .ok days) :
    YearsInRange startsOn endsOn ∧ HolidaysOn startsOn endsOn days := by
  simp only [holidaysBetween, bind_eq_ok, pure_eq_ok] at h
  obtain ⟨years, hyears, rfl⟩ := h
  have hrange : YearsInRange startsOn endsOn := by
    intro year hlow hhigh
    obtain ⟨holidays, -, hholidays⟩ :=
      exists_of_mem_of_mapM hyears (mem_daysFrom.mpr ⟨hlow, hhigh⟩)
    exact isCalendarYear_of_holidays hholidays
  refine ⟨hrange, sortedSet_sorted _, fun day => ?_⟩
  rw [mem_sortedSet, List.mem_filter, List.mem_flatten]
  simp only [Bool.and_eq_true, decide_eq_true_eq]
  constructor
  · rintro ⟨⟨holidays, hholidays, hday⟩, hlow, hhigh⟩
    obtain ⟨year, -, hyear⟩ := exists_of_mem_mapM hyears hholidays
    have hcalendar := isCalendarYear_of_holidays hyear
    rw [holidaysForYear_eq hcalendar, Except.ok.injEq] at hyear
    exact ⟨hlow, hhigh, year, hcalendar, hyear ▸ hday⟩
  · rintro ⟨hlow, hhigh, year, hcalendar, hday⟩
    obtain ⟨hfirst, hlast⟩ := year_mem_of_holiday hday hlow hhigh
    obtain ⟨holidays, hholidays, hyear⟩ :=
      exists_of_mem_of_mapM hyears (mem_daysFrom.mpr ⟨hfirst, hlast⟩)
    rw [holidaysForYear_eq hcalendar, Except.ok.injEq] at hyear
    exact ⟨⟨holidays, hholidays, hyear ▸ hday⟩, hlow, hhigh⟩

theorem exists_holidaysBetween {startsOn endsOn : ℤ} (h : YearsInRange startsOn endsOn) :
    ∃ days, holidaysBetween startsOn endsOn = .ok days := by
  have hyears : ∀ year ∈ daysFrom (yearOf startsOn - 1) (yearOf endsOn + 1),
      ∃ holidays, holidaysForYear year = .ok holidays := by
    intro year hyear
    obtain ⟨hlow, hhigh⟩ := mem_daysFrom.mp hyear
    exact ⟨_, holidaysForYear_eq (h year hlow hhigh)⟩
  obtain ⟨years, hyears⟩ := exists_mapM_eq_ok hyears
  simp only [holidaysBetween, hyears, ok_bind]
  exact ⟨_, rfl⟩

/-- The holidays up to a later date begin with those up to an earlier one. -/
theorem HolidaysOn.extends {startsOn endsOn later : ℤ} {days days' : List ℤ}
    (h : HolidaysOn startsOn endsOn days) (h' : HolidaysOn startsOn later days')
    (hle : endsOn ≤ later) : ∃ added, days' = days ++ added ∧ ∀ day ∈ added, endsOn < day := by
  have hsplit : HolidaysOn startsOn later (days ++ days'.filter fun day => endsOn < day) := by
    constructor
    · refine List.pairwise_append.mpr ⟨h.sorted, h'.sorted.filter _, fun a ha b hb => ?_⟩
      have hend := ((h.mem_iff a).mp ha).2.1
      have hbehind := of_decide_eq_true (List.mem_filter.mp hb).2
      omega
    · intro day
      rw [List.mem_append, List.mem_filter, decide_eq_true_eq, h.mem_iff, h'.mem_iff]
      constructor
      · rintro (⟨hlow, hhigh, hyear⟩ | ⟨hday, -⟩)
        · exact ⟨hlow, hhigh.trans hle, hyear⟩
        · exact hday
      · rintro ⟨hlow, hhigh, hyear⟩
        rcases le_or_gt day endsOn with hday | hday
        · exact .inl ⟨hlow, hday, hyear⟩
        · exact .inr ⟨⟨hlow, hhigh, hyear⟩, hday⟩
  refine ⟨_, h'.unique hsplit, fun day hday => ?_⟩
  exact of_decide_eq_true (List.mem_filter.mp hday).2

/-! ### Catching up -/

theorem requiresExtension_mono {endsOn asOf later : ℤ} (hle : asOf ≤ later)
    (h : requiresExtension endsOn asOf = true) : requiresExtension endsOn later = true := by
  simp only [requiresExtension, Bool.or_eq_true, decide_eq_true_eq] at h ⊢
  omega

/-- The end that is caught up with needs no extension, and lies at the end of a year. -/
theorem catchUpEnd_spec {endsOn asOf caught : ℤ} (h : catchUpEnd endsOn asOf = .ok caught) :
    requiresExtension caught asOf = false ∧
      (caught = endsOn ∨ (endsOn < caught ∧ caught = dayOf (yearOf caught) 12 31)) := by
  induction endsOn using catchUpEnd.induct asOf with
  | case1 endsOn hrequires hlimit =>
    rw [catchUpEnd, if_pos hrequires, if_pos hlimit] at h
    cases h
  | case2 endsOn hrequires hlimit ih =>
    rw [catchUpEnd, if_pos hrequires, if_neg hlimit] at h
    obtain ⟨hfree, hcaught⟩ := ih h
    have hlater : endsOn < dayOf (yearOf endsOn + extensionYears) 12 31 := by
      have hend := (yearOf_mem endsOn).2
      have hle : newYearsDay (yearOf endsOn + 1) <
          newYearsDay (yearOf endsOn + extensionYears + 1) :=
        newYearsDay_strictMono (by unfold extensionYears; omega)
      rw [dayOf_last]
      omega
    refine ⟨hfree, .inr ?_⟩
    rcases hcaught with rfl | ⟨hlt, hlast⟩
    · exact ⟨hlater, by rw [yearOf_last]⟩
    · exact ⟨hlater.trans hlt, hlast⟩
  | case3 endsOn hrequires =>
    rw [catchUpEnd, if_neg hrequires] at h
    obtain rfl := Except.ok.inj h
    exact ⟨by simpa using hrequires, .inl rfl⟩

/-- Catching up twice is catching up with the later date. -/
theorem catchUpEnd_comp {endsOn asOf caught : ℤ} (h : catchUpEnd endsOn asOf = .ok caught)
    (later : ℤ) : catchUpEnd caught later = catchUpEnd endsOn (max asOf later) := by
  induction endsOn using catchUpEnd.induct asOf with
  | case1 endsOn hrequires hlimit =>
    rw [catchUpEnd, if_pos hrequires, if_pos hlimit] at h
    cases h
  | case2 endsOn hrequires hlimit ih =>
    rw [catchUpEnd, if_pos hrequires, if_neg hlimit] at h
    have hmax : requiresExtension endsOn (max asOf later) = true :=
      requiresExtension_mono (le_max_left _ _) hrequires
    rw [ih h, catchUpEnd.eq_1 endsOn, if_pos hmax, if_neg hlimit]
  | case3 endsOn hrequires =>
    rw [catchUpEnd, if_neg hrequires] at h
    obtain rfl := Except.ok.inj h
    -- the end needs no extension for the earlier date, so the later one decides
    rcases le_total asOf later with hle | hle
    · rw [max_eq_right hle]
    · rw [max_eq_left hle]
      have hlater : ¬ requiresExtension endsOn later = true := fun hlater =>
        hrequires (requiresExtension_mono hle hlater)
      rw [catchUpEnd, if_neg hlater, catchUpEnd.eq_1 endsOn asOf, if_neg hrequires]

/-! ### Canonical horizons -/

/-- The horizon is accepted and is the one of its dates. -/
structure Canonical (horizon : HolidayHorizon) : Prop where
  valid : horizon.validate = .ok ()
  authentic : horizon.authenticate = .ok ()

theorem authenticate_eq_ok {horizon : HolidayHorizon} : horizon.authenticate = .ok () ↔
    (horizon.profile = usFederalProfile ∧ horizon.version = usFederalVersion) ∧
      holidaysBetween horizon.startsOn horizon.endsOn = .ok horizon.holidays ∧
      horizon.startsOn = dayOf (yearOf horizon.startsOn) 1 1 ∧
      horizon.endsOn = dayOf (yearOf horizon.endsOn) 12 31 := by
  simp only [HolidayHorizon.authenticate, bind_eq_ok, exists_unit, require_eq_ok]
  constructor
  · rintro ⟨hprofile, expected, hexpected, hstart, hend, rfl⟩
    exact ⟨hprofile, hexpected, hstart, hend⟩
  · rintro ⟨hprofile, hholidays, hstart, hend⟩
    exact ⟨hprofile, _, hholidays, hstart, hend, rfl⟩

theorem horizon_validate_eq_ok {horizon : HolidayHorizon} : horizon.validate = .ok () ↔
    isCanonicalText horizon.profile = true ∧ isCanonicalText horizon.version = true ∧
      horizon.startsOn ≤ horizon.endsOn ∧ horizon.holidays = sortedSet horizon.holidays ∧
      ∀ day ∈ horizon.holidays, horizon.startsOn ≤ day ∧ day ≤ horizon.endsOn := by
  simp only [HolidayHorizon.validate, bind_eq_ok, exists_unit, require_eq_ok]

theorem Canonical.holidaysOn {horizon : HolidayHorizon} (h : Canonical horizon) :
    HolidaysOn horizon.startsOn horizon.endsOn horizon.holidays :=
  (holidaysBetween_spec (authenticate_eq_ok.mp h.authentic).2.1).2

/-- The horizon of a new team is canonical; it begins a year before that of the first start, and
ends ten years after it. -/
theorem materialized_canonical {firstStart : ℤ} {timezone : TimeZone} {horizon : HolidayHorizon}
    (h : materializeUsFederalHorizon firstStart timezone = .ok horizon) :
    Canonical horizon ∧ ∃ wall, toLocal timezone firstStart = .ok wall ∧
      yearOf horizon.startsOn = yearOf (dateOf wall.1) - 1 ∧
      yearOf horizon.endsOn = yearOf (dateOf wall.1) + 10 := by
  simp only [materializeUsFederalHorizon, calendarDate, bind_eq_ok, exists_unit, require_eq_ok,
    pure_eq_ok] at h
  obtain ⟨wall, hwall, _, ⟨-, rfl⟩, _, ⟨-, rfl⟩, holidays, hholidays, hvalid, rfl⟩ := h
  have hfirst : yearOf (dayOf (yearOf (dateOf wall.1) - startYearOffset) 1 1) =
      yearOf (dateOf wall.1) - startYearOffset := by
    rw [dayOf_first, yearOf_newYearsDay]
  have hlast : yearOf (dayOf (yearOf (dateOf wall.1) + initialEndYearOffset) 12 31) =
      yearOf (dateOf wall.1) + initialEndYearOffset := yearOf_last _
  refine ⟨⟨hvalid, authenticate_eq_ok.mpr ⟨⟨rfl, rfl⟩, hholidays, ?_, ?_⟩⟩, wall, hwall, hfirst,
    hlast⟩
  · exact congrArg (fun year => dayOf year 1 1) hfirst.symm
  · exact congrArg (fun year => dayOf year 12 31) hlast.symm

/-- The horizon that ends at another date. -/
def HolidayHorizon.endingOn (horizon : HolidayHorizon) (endsOn : ℤ) (holidays : List ℤ) :
    HolidayHorizon :=
  { horizon with endsOn, holidays }

/-- A later end of a year makes a canonical horizon. -/
theorem Canonical.endingOn {horizon : HolidayHorizon} (h : Canonical horizon) {endsOn : ℤ}
    {holidays : List ℤ} (hlater : horizon.endsOn < endsOn)
    (hlast : endsOn = dayOf (yearOf endsOn) 12 31)
    (hholidays : holidaysBetween horizon.startsOn endsOn = .ok holidays) :
    Canonical (horizon.endingOn endsOn holidays) := by
  obtain ⟨hprofile, hversion, horder, -, -⟩ := horizon_validate_eq_ok.mp h.valid
  obtain ⟨hname, -, hstart, -⟩ := authenticate_eq_ok.mp h.authentic
  have hon := (holidaysBetween_spec hholidays).2
  constructor
  · refine horizon_validate_eq_ok.mpr
      ⟨hprofile, hversion, horder.trans hlater.le, ?_, fun day hday => ?_⟩
    · exact (sortedSet_eq hon.sorted fun _ => Iff.rfl).symm
    · obtain ⟨hlow, hhigh, -⟩ := (hon.mem_iff day).mp hday
      exact ⟨hlow, hhigh⟩
  · exact authenticate_eq_ok.mpr ⟨hname, hholidays, hstart, hlast⟩

/-- What an extension makes of the end that it has caught up with. -/
def HolidayHorizon.until (horizon : HolidayHorizon) (endsOn : ℤ) : Result HolidayHorizon :=
  if endsOn = horizon.endsOn then .ok horizon
  else horizon.endingOn endsOn <$> holidaysBetween horizon.startsOn endsOn

theorem extend_eq {horizon : HolidayHorizon} (h : Canonical horizon) (asOf : ℤ) :
    extendUsFederalHorizon horizon asOf = catchUpEnd horizon.endsOn asOf >>= horizon.until := by
  simp only [extendUsFederalHorizon, h.authentic, ok_bind]
  cases hcatch : catchUpEnd horizon.endsOn asOf with
  | error error => rfl
  | ok caught =>
    simp only [ok_bind, HolidayHorizon.until]
    by_cases hsame : caught = horizon.endsOn
    · rw [if_pos hsame, if_pos hsame]
      rfl
    · rw [if_neg hsame, if_neg hsame]
      obtain ⟨hlater, hlast⟩ := (catchUpEnd_spec hcatch).2.resolve_left hsame
      cases hholidays : holidaysBetween horizon.startsOn caught with
      | error error => rfl
      | ok holidays =>
        have hvalid := (h.endingOn hlater hlast hholidays).valid
        simp only [HolidayHorizon.endingOn] at hvalid
        simp only [ok_bind, hvalid]
        rfl

/-- What an extension that succeeds has done. -/
structure Extended (horizon : HolidayHorizon) (asOf : ℤ) (extended : HolidayHorizon) : Prop where
  caught : catchUpEnd horizon.endsOn asOf = .ok extended.endsOn
  until_eq : horizon.until extended.endsOn = .ok extended
  startsOn : extended.startsOn = horizon.startsOn
  endsOn : horizon.endsOn ≤ extended.endsOn
  canonical : Canonical extended

theorem extended_of_ok {horizon extended : HolidayHorizon} (h : Canonical horizon) {asOf : ℤ}
    (hextend : extendUsFederalHorizon horizon asOf = .ok extended) :
    Extended horizon asOf extended := by
  rw [extend_eq h, bind_eq_ok] at hextend
  obtain ⟨caught, hcaught, huntil⟩ := hextend
  have hsteps := huntil
  unfold HolidayHorizon.until at hsteps
  by_cases hsame : caught = horizon.endsOn
  · rw [if_pos hsame] at hsteps
    obtain rfl := Except.ok.inj hsteps
    subst hsame
    exact ⟨hcaught, huntil, rfl, le_rfl, h⟩
  · rw [if_neg hsame, map_eq_ok] at hsteps
    obtain ⟨holidays, hholidays, rfl⟩ := hsteps
    obtain ⟨hlater, hlast⟩ := (catchUpEnd_spec hcaught).2.resolve_left hsame
    exact ⟨hcaught, huntil, rfl, hlater.le, h.endingOn hlater hlast hholidays⟩

/-- An extended horizon makes of a later end what the first one does. -/
theorem Extended.until_later {horizon extended : HolidayHorizon} {asOf endsOn : ℤ}
    (h : Extended horizon asOf extended) (hlater : extended.endsOn ≤ endsOn) :
    extended.until endsOn = horizon.until endsOn := by
  have huntil := h.until_eq
  unfold HolidayHorizon.until at huntil ⊢
  by_cases hkept : extended.endsOn = horizon.endsOn
  · rw [if_pos hkept] at huntil
    rw [Except.ok.inj huntil]
  · rw [if_neg hkept, map_eq_ok] at huntil
    obtain ⟨holidays, hholidays, hextended⟩ := huntil
    by_cases hsame : endsOn = extended.endsOn
    · rw [if_pos hsame, if_neg (hsame ▸ hkept), hsame, hholidays]
      exact congrArg Except.ok hextended.symm
    · have hne : endsOn ≠ horizon.endsOn := by
        have hle := h.endsOn
        omega
      rw [if_neg hsame, if_neg hne, h.startsOn, ← hextended]
      rfl

/-- Extending twice is extending to the later date. -/
theorem extend_comp {horizon extended : HolidayHorizon} (h : Canonical horizon) {asOf : ℤ}
    (hextend : extendUsFederalHorizon horizon asOf = .ok extended) (later : ℤ) :
    extendUsFederalHorizon extended later =
      extendUsFederalHorizon horizon (max asOf later) := by
  have hextended := extended_of_ok h hextend
  rw [extend_eq hextended.canonical, extend_eq h, ← catchUpEnd_comp hextended.caught]
  cases hcatch : catchUpEnd extended.endsOn later with
  | error error => rfl
  | ok caught =>
    have hle : extended.endsOn ≤ caught := by
      rcases (catchUpEnd_spec hcatch).2 with hsame | ⟨hlt, -⟩
      · exact hsame.ge
      · exact hlt.le
    exact hextended.until_later hle

/-- The year of the date and the one behind it end within the horizon. -/
theorem Extended.covers {horizon extended : HolidayHorizon} {asOf : ℤ}
    (h : Extended horizon asOf extended) :
    newYearsDay (yearOf asOf + 2) - 1 ≤ extended.endsOn := by
  have hfree := (catchUpEnd_spec h.caught).1
  simp only [requiresExtension, Bool.or_eq_false_iff, decide_eq_false_iff_not, dayOf_first] at hfree
  obtain ⟨-, -, -, hlast⟩ := authenticate_eq_ok.mp h.canonical.authentic
  have hyear : yearOf asOf ≤ yearOf extended.endsOn - 1 := by
    have hstart := (yearOf_mem asOf).1
    exact newYearsDay_strictMono.le_iff_le.mp (by omega)
  have hmono : newYearsDay (yearOf asOf + 2) ≤ newYearsDay (yearOf extended.endsOn + 1) :=
    newYearsDay_strictMono.monotone (by omega)
  rw [dayOf_last] at hlast
  omega

/-- An extension of a canonical horizon can be repeated with any date, and is then the extension to
the later date; it adds holidays behind the old end only, and is canonical.  A year of the horizon
that the date lies in is followed by a full further year in it. -/
theorem horizon_extension {horizon extended : HolidayHorizon} (h : Canonical horizon) {asOf : ℤ}
    (hextend : extendUsFederalHorizon horizon asOf = .ok extended) :
    (∀ later, extendUsFederalHorizon extended later =
      extendUsFederalHorizon horizon (max asOf later)) ∧
    extendUsFederalHorizon extended asOf = .ok extended ∧
    (extended.startsOn = horizon.startsOn ∧ horizon.endsOn ≤ extended.endsOn ∧
      ∃ added, extended.holidays = horizon.holidays ++ added ∧
        ∀ day ∈ added, horizon.endsOn < day) ∧
    (Canonical extended ∧
      holidaysBetween extended.startsOn extended.endsOn = .ok extended.holidays ∧
      HolidaysOn extended.startsOn extended.endsOn extended.holidays) ∧
    (yearOf extended.startsOn ≤ yearOf asOf →
      extended.startsOn ≤ newYearsDay (yearOf asOf) ∧
      newYearsDay (yearOf asOf + 2) - 1 ≤ extended.endsOn) := by
  have hextended := extended_of_ok h hextend
  have hon := hextended.canonical.holidaysOn
  obtain ⟨-, hholidays, hfirst, -⟩ := authenticate_eq_ok.mp hextended.canonical.authentic
  refine ⟨extend_comp h hextend, ?_, ⟨hextended.startsOn, hextended.endsOn, ?_⟩,
    ⟨hextended.canonical, hholidays, hon⟩, fun hyear => ⟨?_, hextended.covers⟩⟩
  · rw [extend_comp h hextend, max_self, hextend]
  · rw [hextended.startsOn] at hon
    exact h.holidaysOn.extends hon hextended.endsOn
  · rw [hfirst, dayOf_first]
    exact newYearsDay_strictMono.monotone hyear

/-! ### A horizon of three years -/

/-- The holidays from 2024 to 2026. -/
def threeYears : HolidayHorizon where
  profile := usFederalProfile
  version := usFederalVersion
  startsOn := dayOf 2024 1 1
  endsOn := dayOf 2026 12 31
  holidays := (holidaysBetween (dayOf 2024 1 1) (dayOf 2026 12 31)).toOption.getD []

theorem threeYears_canonical : Canonical threeYears where
  valid := by decide +kernel
  authentic := by decide +kernel

/-- In 2025 the horizon is extended to 2036. -/
theorem horizon_extension_threeYears :
    ∃ extended, extendUsFederalHorizon threeYears (dayOf 2025 1 2) = .ok extended ∧
      extended.endsOn = dayOf 2036 12 31 ∧
      extendUsFederalHorizon extended (dayOf 2030 6 1) =
        extendUsFederalHorizon threeYears (max (dayOf 2025 1 2) (dayOf 2030 6 1)) := by
  have hcatch : catchUpEnd threeYears.endsOn (dayOf 2025 1 2) = .ok (dayOf 2036 12 31) := by
    rw [catchUpEnd, if_pos (by decide +kernel), if_neg (by decide +kernel), catchUpEnd,
      if_neg (by decide +kernel)]
    exact congrArg Except.ok (by decide +kernel)
  have hrange : YearsInRange threeYears.startsOn (dayOf 2036 12 31) := by
    intro year hlow hhigh
    have hstart : yearOf threeYears.startsOn = 2024 := by decide +kernel
    have hend : yearOf (dayOf 2036 12 31) = 2036 := by decide +kernel
    unfold IsCalendarYear
    omega
  obtain ⟨holidays, hholidays⟩ := exists_holidaysBetween hrange
  have hextend : extendUsFederalHorizon threeYears (dayOf 2025 1 2) =
      .ok (threeYears.endingOn (dayOf 2036 12 31) holidays) := by
    rw [extend_eq threeYears_canonical, hcatch, ok_bind, HolidayHorizon.until,
      if_neg (by decide +kernel), hholidays]
    rfl
  exact ⟨_, hextend, rfl, (horizon_extension threeYears_canonical hextend).1 _⟩

/-- A date before the horizon extends nothing, and its year does not lie in the horizon. -/
theorem earlier_date_outside :
    Canonical threeYears ∧
      extendUsFederalHorizon threeYears (dayOf 1990 6 1) = .ok threeYears ∧
      ¬ threeYears.startsOn ≤ newYearsDay (yearOf (dayOf 1990 6 1)) := by
  refine ⟨threeYears_canonical, ?_, by decide +kernel⟩
  have hcatch : catchUpEnd threeYears.endsOn (dayOf 1990 6 1) = .ok threeYears.endsOn := by
    rw [catchUpEnd, if_neg (by decide +kernel)]
  rw [extend_eq threeYears_canonical, hcatch, ok_bind, HolidayHorizon.until, if_pos rfl]

end JiraSimulator
