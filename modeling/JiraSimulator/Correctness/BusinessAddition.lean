import JiraSimulator.Correctness.BusinessMeasure

/-!
# Adding business time

Adding a duration walks from working interval to working interval until the duration is used up, so
it ends at the first instant before which that much time has been spent at work.

* `add_inverts_elapsed`: adding inverts measuring, composes and is monotone, and its loop ends.
* `missingBoundary_add`: an addition that fails at a boundary the clocks skip.
-/

namespace JiraSimulator

open Library Library.Outcome

variable {p : Platform} {calendar : BusinessCalendar}

namespace BusinessCalendar

/-! ### The next working instant -/

/-- An instant inside the working interval of a date. -/
structure AtWork (calendar : BusinessCalendar) (day : ℤ) (working : UtcInterval)
    (instant : ℤ) : Prop where
  interval : calendar.workingInterval day = .ok (some working)
  start_le : working.start ≤ instant
  lt_finish : instant < working.finish

/-- The working intervals of the dates between two dates are defined. -/
def DefinedBetween (calendar : BusinessCalendar) (first last : ℤ) : Prop :=
  ∀ day, first ≤ day → day ≤ last → ∃ found, calendar.workingInterval day = .ok found

theorem DefinedBetween.extend {first day last : ℤ} (h : calendar.DefinedBetween first day)
    (hrest : calendar.DefinedBetween day last) : calendar.DefinedBetween first last := by
  intro other hfirst hlast
  rcases le_total other day with hle | hle
  · exact h other hfirst hle
  · exact hrest other hle hlast

/-- The working intervals of the dates from one date on and before another have ended. -/
def EndedBetween (calendar : BusinessCalendar) (first last instant : ℤ) : Prop :=
  ∀ day working, first ≤ day → day < last →
    calendar.workingInterval day = .ok (some working) → working.finish ≤ instant

theorem workingInterval_le {day : ℤ} {found : Option UtcInterval}
    (h : calendar.workingInterval day = .ok found) : day ≤ calendar.holidayHorizonEnd := by
  simp only [workingInterval, bind_eq_ok, exists_unit, require_eq_ok] at h
  exact h.1

theorem workFrom_eq_some {working : UtcInterval} {instant next : ℤ} :
    working.workFrom instant = some next ↔ (instant < working.start ∧ next = working.start) ∨
      (working.start ≤ instant ∧ instant < working.finish ∧ next = instant) := by
  unfold UtcInterval.workFrom
  split_ifs <;> grind

theorem workFrom_eq_none {working : UtcInterval} {instant : ℤ} :
    working.workFrom instant = none ↔ working.start ≤ instant ∧ working.finish ≤ instant := by
  unfold UtcInterval.workFrom
  split_ifs <;> grind

/-- One round of the loop: the working interval of the date is left or the next date is tried. -/
theorem nextWorkingFrom_step {instant first next : ℤ} {more : ℕ}
    (h : calendar.nextWorkingFrom instant more first = .ok next) :
    ∃ found, calendar.workingInterval first = .ok found ∧
      ((∃ working, found = some working ∧ working.workFrom instant = some next) ∨
      (∀ working, found = some working → working.workFrom instant = none) ∧
        ∃ rest, more = rest + 1 ∧ calendar.nextWorkingFrom instant rest (first + 1) = .ok next) := by
  unfold nextWorkingFrom at h
  simp only [bind_eq_ok] at h
  obtain ⟨found, hfound, h⟩ := h
  refine ⟨found, hfound, ?_⟩
  cases hwork : found.bind (·.workFrom instant) with
  | some next' =>
    rw [hwork] at h
    obtain ⟨working, hworking, hnext⟩ := Option.bind_eq_some_iff.mp hwork
    rw [Except.ok.inj h] at hnext
    exact .inl ⟨working, hworking, hnext⟩
  | none =>
    rw [hwork] at h
    refine .inr ⟨fun working hworking => Option.bind_eq_none_iff.mp hwork working hworking, ?_⟩
    cases more with
    | zero => cases h
    | succ rest => exact ⟨rest, rfl, h⟩

/-- What the next working instant after an instant is: it lies in the working interval of a date,
where that interval begins or where the instant lies, and all working intervals before have ended.
-/
structure WorksNext (calendar : BusinessCalendar) (instant first day : ℤ) (working : UtcInterval)
    (next : ℤ) : Prop where
  first_le : first ≤ day
  atWork : calendar.AtWork day working next
  instant_le : instant ≤ next
  eq : next = instant ∨ next = working.start
  defined : calendar.DefinedBetween first day
  ended : calendar.EndedBetween first day instant

theorem WorksNext.of_workFrom (hcalendar : calendar.Divided) {instant first next : ℤ}
    {working : UtcInterval} (hfound : calendar.workingInterval first = .ok (some working))
    (hwork : working.workFrom instant = some next) :
    calendar.WorksNext instant first first working next := by
  have hlt := hcalendar.start_lt hfound
  rw [workFrom_eq_some] at hwork
  refine ⟨le_rfl, ⟨hfound, by omega, by omega⟩, by omega, by omega, ?_, ?_⟩
  · intro other hfirst hlast
    rw [le_antisymm hlast hfirst]
    exact ⟨_, hfound⟩
  · intro other working' hfirst hlast
    omega

theorem nextWorkingFrom_eq_ok (hcalendar : calendar.Divided) {instant first next : ℤ} {more : ℕ}
    (h : calendar.nextWorkingFrom instant more first = .ok next) :
    ∃ day working, calendar.WorksNext instant first day working next := by
  induction more generalizing first with
  | zero =>
    obtain ⟨found, hfound, ⟨working, rfl, hwork⟩ | ⟨-, rest, hrest, -⟩⟩ := nextWorkingFrom_step h
    · exact ⟨first, working, .of_workFrom hcalendar hfound hwork⟩
    · cases hrest
  | succ more ih =>
    obtain ⟨found, hfound, ⟨working, rfl, hwork⟩ | ⟨hended, rest, hrest, h⟩⟩ :=
      nextWorkingFrom_step h
    · exact ⟨first, working, .of_workFrom hcalendar hfound hwork⟩
    · cases hrest
      obtain ⟨day, working, hnext⟩ := ih h
      refine ⟨day, working, by linarith [hnext.first_le], hnext.atWork, hnext.instant_le, hnext.eq,
        ?_, ?_⟩
      · intro other hfirst hlast
        rcases eq_or_lt_of_le hfirst with rfl | hlt
        · exact ⟨found, hfound⟩
        · exact hnext.defined other (by omega) hlast
      · intro other working' hfirst hlast hworking'
        rcases eq_or_lt_of_le hfirst with rfl | hlt
        · rw [hfound, Except.ok.injEq] at hworking'
          exact (workFrom_eq_none.mp (hended working' hworking')).2
        · exact hnext.ended other working' (by omega) hlast hworking'

theorem nextWorkingInstant_eq_ok (hcalendar : calendar.Divided) {instant next : ℤ}
    (h : calendar.nextWorkingInstant instant = .ok next) :
    ∃ first day working, calendar.businessDate instant = .ok first ∧
      calendar.WorksNext instant first day working next := by
  simp only [nextWorkingInstant, bind_eq_ok] at h
  obtain ⟨first, hfirst, h⟩ := h
  obtain ⟨day, working, hnext⟩ := nextWorkingFrom_eq_ok hcalendar h
  exact ⟨first, day, working, hfirst, hnext⟩

/-- No time at work passes until the next working instant. -/
theorem WorksNext.elapsed_eq_zero (hcalendar : calendar.Divided) {instant first day next : ℤ}
    {working : UtcInterval} (hfirst : calendar.businessDate instant = .ok first)
    (h : calendar.WorksNext instant first day working next) :
    elapsedIn calendar.workingTime instant next = 0 := by
  rw [elapsedIn_eq_zero_iff]
  rintro other hafter hbefore ⟨date, working', hworking', hstart, hfinish⟩
  have hfirst_le : first ≤ date := by
    rw [businessDate_eq_ok hfirst]
    exact hcalendar.date_le hworking' (by omega)
  have heq := h.eq
  have hwork := h.atWork.start_le
  rcases lt_trichotomy date day with hlt | rfl | hlt
  · have hended := h.ended date working' hfirst_le hlt hworking'
    omega
  · have hsame := h.atWork.interval
    rw [hworking'] at hsame
    cases hsame
    omega
  · have hordered := hcalendar.orderly.ordered _ _ _ _ hlt h.atWork.interval hworking'
    have hwithin := h.atWork.lt_finish
    omega

/-! ### The end of an addition -/

/-- The result of adding a duration from an instant on: so much time has been spent at work, the
last of it just before the result, and the working intervals of the dates up to then are defined. -/
structure AddsUpTo (calendar : BusinessCalendar) (start first duration result : ℤ) : Prop where
  lt : start < result
  elapsed : elapsedIn calendar.workingTime start result = duration
  working : result - 1 ∈ calendar.workingTime
  defined : ∃ day, calendar.businessDate (result - 1) = .ok day ∧ calendar.DefinedBetween first day

theorem elapsedIn_last {working : Set ℤ} {start finish : ℤ} (hlt : start < finish)
    (h : finish - 1 ∈ working) :
    elapsedIn working start finish = elapsedIn working start (finish - 1) + 1 := by
  rw [elapsedIn_add (show start ≤ finish - 1 by omega) (show finish - 1 ≤ finish by omega)]
  have hlast := elapsedIn_of_subset (S := working) (show finish - 1 ≤ finish by omega)
    fun instant hstart hfinish => by
      rwa [show instant = finish - 1 by omega]
  omega

/-- Before the result less time has been spent at work. -/
theorem AddsUpTo.least {start first duration result : ℤ}
    (h : calendar.AddsUpTo start first duration result) {earlier : ℤ} (hlt : earlier < result) :
    elapsedIn calendar.workingTime start earlier < duration := by
  have hlast := elapsedIn_last h.lt h.working
  have hmono := elapsedIn_mono (S := calendar.workingTime) (a := start)
    (show earlier ≤ result - 1 by omega)
  have helapsed := h.elapsed
  omega

theorem AddsUpTo.unique {start first first' duration result result' : ℤ}
    (h : calendar.AddsUpTo start first duration result)
    (h' : calendar.AddsUpTo start first' duration result') : result = result' := by
  rcases lt_trichotomy result result' with hlt | heq | hlt
  · have hless := h'.least hlt
    have helapsed := h.elapsed
    omega
  · exact heq
  · have hless := h.least hlt
    have helapsed := h'.elapsed
    omega

theorem AtWork.elapsed_eq {day cursor finish : ℤ} {working : UtcInterval}
    (h : calendar.AtWork day working cursor) (hle : cursor ≤ finish)
    (hfinish : finish ≤ working.finish) :
    elapsedIn calendar.workingTime cursor finish = finish - cursor := by
  refine elapsedIn_of_subset hle fun instant hafter hbefore => ?_
  exact ⟨day, working, h.interval, h.start_le.trans hafter, by omega⟩

section divided

variable (hcalendar : calendar.Divided)

include hcalendar

/-- The elapsed time is defined when the working intervals of the dates in between are. -/
theorem Divided.exists_elapsed {start finish first last : ℤ} (hlt : start < finish)
    (hfirst : calendar.businessDate start = .ok first)
    (hlast : calendar.businessDate (finish - 1) = .ok last)
    (hdefined : calendar.DefinedBetween first last) :
    ∃ dual, calendar.elapsed ⟨start, finish⟩ = .ok dual := by
  have hoverlap : ∀ day ∈ daysFrom first last,
      ∃ overlap, calendar.workingOverlap ⟨start, finish⟩ day = .ok overlap := by
    intro day hday
    obtain ⟨hge, hle⟩ := mem_daysFrom.mp hday
    obtain ⟨found, hfound⟩ := hdefined day hge hle
    rw [workingOverlap, hfound, ok_bind]
    cases found with
    | none => exact ⟨0, rfl⟩
    | some working => exact ⟨_, rfl⟩
  obtain ⟨overlaps, hoverlaps⟩ := exists_mapM_eq_ok hoverlap
  have hsum := hcalendar.overlaps_sum hfirst hlast hoverlaps
  have hnonneg : 0 ≤ overlaps.sum := hsum ▸ elapsedIn_nonneg
  have hlength : overlaps.sum ≤ finish - start := hsum ▸ elapsedIn_le_length hlt.le
  have hlong : ¬ finish - start = 0 := by omega
  refine ⟨⟨finish - start, overlaps.sum⟩, ?_⟩
  rw [elapsed, if_neg hlong, hfirst, ok_bind, hlast, ok_bind, hoverlaps, ok_bind,
    DualElapsed.create, require, check_of ⟨hnonneg.trans hlength, hnonneg, hlength⟩]
  rfl

/-- The date of an instant at work. -/
theorem AtWork.businessDate {day instant : ℤ} {working : UtcInterval}
    (h : calendar.AtWork day working instant) : calendar.businessDate instant = .ok day :=
  hcalendar.businessDate_eq h.interval h.start_le h.lt_finish.le

/-- A round that starts at work uses up the rest of the working interval or ends in it. -/
theorem AtWork.addRound_eq {day cursor : ℤ} {working : UtcInterval}
    (h : calendar.AtWork day working cursor) (remaining : ℤ) :
    calendar.addRound remaining cursor =
      if remaining ≤ working.finish - cursor then .ok (.inl (cursor + remaining))
      else do
        let next ← calendar.nextWorkingInstant working.finish
        return .inr (remaining - (working.finish - cursor), next) := by
  rw [addRound, h.businessDate hcalendar, ok_bind, h.interval, ok_bind]
  rfl

/-- The next working instant after the end of a workday lies in a later one. -/
theorem AtWork.next_eq_ok {day cursor next : ℤ} {working : UtcInterval}
    (h : calendar.AtWork day working cursor)
    (hnext : calendar.nextWorkingInstant working.finish = .ok next) :
    ∃ day' working', day < day' ∧ calendar.WorksNext working.finish day day' working' next := by
  obtain ⟨first, day', working', hfirst, hworks⟩ := nextWorkingInstant_eq_ok hcalendar hnext
  have hlt := hcalendar.start_lt h.interval
  rw [hcalendar.businessDate_eq h.interval hlt.le le_rfl, Except.ok.injEq] at hfirst
  subst hfirst
  refine ⟨day', working', lt_of_le_of_ne hworks.first_le ?_, hworks⟩
  rintro rfl
  have hsame := hworks.atWork.interval
  rw [h.interval] at hsame
  cases hsame
  have hwithin := hworks.atWork.lt_finish
  have hle := hworks.instant_le
  omega

/-- An addition that starts at work adds the duration up. -/
theorem AtWork.addLoop_eq_ok {rounds : ℕ} {day cursor remaining result : ℤ} {working : UtcInterval}
    (h : calendar.AtWork day working cursor) (hpos : 0 < remaining)
    (hloop : calendar.addLoop rounds remaining cursor = some (.ok result)) :
    calendar.AddsUpTo cursor day remaining result := by
  induction rounds generalizing day cursor remaining working with
  | zero => cases hloop
  | succ rounds ih =>
    rw [addLoop, h.addRound_eq hcalendar] at hloop
    by_cases hends : remaining ≤ working.finish - cursor
    · rw [if_pos hends] at hloop
      obtain rfl := Except.ok.inj (Option.some.inj hloop)
      have hstart := h.start_le
      have hdate : calendar.businessDate (cursor + remaining - 1) = .ok day :=
        hcalendar.businessDate_eq h.interval (by omega) (by omega)
      refine ⟨by omega, ?_, ⟨day, working, h.interval, by omega, by omega⟩, day, hdate, ?_⟩
      · rw [h.elapsed_eq (by omega) (by omega)]
        omega
      · intro other hge hle
        rw [le_antisymm hle hge]
        exact ⟨_, h.interval⟩
    · rw [if_neg hends] at hloop
      cases hnext : calendar.nextWorkingInstant working.finish with
      | error e =>
        rw [hnext] at hloop
        cases hloop
      | ok next =>
        rw [hnext] at hloop
        obtain ⟨day', working', hlt, hworks⟩ := h.next_eq_ok hcalendar hnext
        have hadds := ih hworks.atWork (by omega) hloop
        obtain ⟨last, hlast, hdefined⟩ := hadds.defined
        have hbefore := h.lt_finish
        have hle := hworks.instant_le
        have hafter := hadds.lt
        refine ⟨by omega, ?_, hadds.working, last, hlast, hworks.defined.extend hdefined⟩
        -- the rest of the interval, nothing until the next one, and what remains from there
        have hfirst := hcalendar.businessDate_eq h.interval
          (hcalendar.start_lt h.interval).le le_rfl
        rw [elapsedIn_add hbefore.le (by omega), elapsedIn_add hle hafter.le,
          h.elapsed_eq hbefore.le le_rfl, hworks.elapsed_eq_zero hcalendar hfirst,
          hadds.elapsed]
        omega

/-- The result of an addition of some time. -/
theorem Divided.add_eq_ok {rounds : ℕ} {start duration result : ℤ} (hpos : 0 < duration)
    (h : calendar.add rounds ⟨start, duration⟩ = some (.ok result)) :
    ∃ first, calendar.businessDate start = .ok first ∧
      calendar.AddsUpTo start first duration result := by
  have hne : ¬ duration = 0 := by omega
  rw [add, if_neg hne] at h
  cases hnext : calendar.nextWorkingInstant start with
  | error e =>
    simp only [hnext] at h
    cases h
  | ok cursor =>
    simp only [hnext] at h
    obtain ⟨first, day, working, hfirst, hworks⟩ := nextWorkingInstant_eq_ok hcalendar hnext
    have hadds := hworks.atWork.addLoop_eq_ok hcalendar hpos h
    obtain ⟨last, hlast, hdefined⟩ := hadds.defined
    have hle := hworks.instant_le
    have hafter := hadds.lt
    refine ⟨first, hfirst, by omega, ?_, hadds.working, last, hlast,
      hworks.defined.extend hdefined⟩
    rw [elapsedIn_add hle hafter.le, hworks.elapsed_eq_zero hcalendar hfirst, hadds.elapsed,
      zero_add]

end divided

/-! ### Composition -/

/-- The loop ends with an outcome. -/
def LoopEnds (calendar : BusinessCalendar) (remaining cursor : ℤ) (outcome : Result ℤ) : Prop :=
  ∃ rounds, calendar.addLoop rounds remaining cursor = some outcome

/-- The addition ends with an outcome. -/
def Adds (calendar : BusinessCalendar) (request : BusinessTimeAddition)
    (outcome : Result ℤ) : Prop :=
  ∃ rounds, calendar.add rounds request = some outcome

section ends

variable {remaining cursor start duration : ℤ} {outcome outcome' : Result ℤ}

/-- More rounds do not change an outcome. -/
theorem addLoop_mono {rounds more : ℕ} (hle : rounds ≤ more)
    (h : calendar.addLoop rounds remaining cursor = some outcome) :
    calendar.addLoop more remaining cursor = some outcome := by
  induction rounds generalizing more remaining cursor with
  | zero => cases h
  | succ rounds ih =>
    obtain ⟨more, rfl⟩ : ∃ rest, more = rest + 1 := ⟨more - 1, by omega⟩
    rw [addLoop] at h ⊢
    cases hround : calendar.addRound remaining cursor with
    | error e =>
      rw [hround] at h
      exact h
    | ok step =>
      rw [hround] at h
      cases step with
      | inl result => exact h
      | inr next => exact ih (by omega) h

theorem LoopEnds.unique (h : calendar.LoopEnds remaining cursor outcome)
    (h' : calendar.LoopEnds remaining cursor outcome') : outcome = outcome' := by
  obtain ⟨rounds, hrounds⟩ := h
  obtain ⟨rounds', hrounds'⟩ := h'
  have hmore := addLoop_mono (le_max_left rounds rounds') hrounds
  rw [addLoop_mono (le_max_right rounds rounds') hrounds'] at hmore
  exact (Option.some.inj hmore).symm

theorem adds_zero : calendar.Adds ⟨start, 0⟩ outcome ↔ outcome = .ok start := by
  constructor
  · rintro ⟨rounds, h⟩
    exact (Option.some.inj h).symm
  · rintro rfl
    exact ⟨0, rfl⟩

/-- An addition of some time runs its loop from the next working instant on. -/
theorem adds_of_next (hne : duration ≠ 0) (hnext : calendar.nextWorkingInstant start = .ok cursor) :
    calendar.Adds ⟨start, duration⟩ outcome ↔ calendar.LoopEnds duration cursor outcome := by
  unfold Adds LoopEnds add
  simp only [if_neg hne, hnext]

theorem adds_of_error {e : PyError} (hne : duration ≠ 0)
    (hnext : calendar.nextWorkingInstant start = .error e) :
    calendar.Adds ⟨start, duration⟩ outcome ↔ outcome = .error e := by
  unfold Adds add
  simp only [if_neg hne, hnext]
  constructor
  · rintro ⟨rounds, h⟩
    exact (Option.some.inj h).symm
  · rintro rfl
    exact ⟨0, rfl⟩

theorem Adds.unique (h : calendar.Adds ⟨start, duration⟩ outcome)
    (h' : calendar.Adds ⟨start, duration⟩ outcome') : outcome = outcome' := by
  by_cases hzero : duration = 0
  · subst hzero
    rw [adds_zero] at h h'
    rw [h, h']
  · cases hnext : calendar.nextWorkingInstant start with
    | error e =>
      rw [adds_of_error hzero hnext] at h h'
      rw [h, h']
    | ok cursor =>
      rw [adds_of_next hzero hnext] at h h'
      exact h.unique h'

variable (hcalendar : calendar.Divided) {day : ℤ} {working : UtcInterval}

include hcalendar

/-- A loop that starts at work ends in the working interval or adds the rest after it. -/
theorem AtWork.loopEnds_iff (h : calendar.AtWork day working cursor) :
    calendar.LoopEnds remaining cursor outcome ↔
      if remaining ≤ working.finish - cursor then outcome = .ok (cursor + remaining)
      else calendar.Adds ⟨working.finish, remaining - (working.finish - cursor)⟩ outcome := by
  have hround := h.addRound_eq hcalendar remaining
  -- the rest fits into the working hours of this day
  by_cases hends : remaining ≤ working.finish - cursor
  · rw [if_pos hends] at hround ⊢
    constructor
    · rintro ⟨rounds, hloop⟩
      cases rounds with
      | zero => cases hloop
      | succ rounds =>
        rw [addLoop, hround] at hloop
        exact (Option.some.inj hloop).symm
    · rintro rfl
      refine ⟨1, ?_⟩
      rw [addLoop, hround]
  · rw [if_neg hends] at hround ⊢
    -- otherwise the day is used up and the loop goes on in the next
    have hne : remaining - (working.finish - cursor) ≠ 0 := by omega
    cases hnext : calendar.nextWorkingInstant working.finish with
    | error e =>
      rw [hnext] at hround
      rw [adds_of_error hne hnext]
      constructor
      · rintro ⟨rounds, hloop⟩
        cases rounds with
        | zero => cases hloop
        | succ rounds =>
          rw [addLoop, hround] at hloop
          exact (Option.some.inj hloop).symm
      · rintro rfl
        refine ⟨1, ?_⟩
        rw [addLoop, hround]
        rfl
    | ok next =>
      rw [hnext] at hround
      rw [adds_of_next hne hnext]
      constructor
      · rintro ⟨rounds, hloop⟩
        cases rounds with
        | zero => cases hloop
        | succ rounds =>
          rw [addLoop, hround] at hloop
          exact ⟨rounds, hloop⟩
      · rintro ⟨rounds, hloop⟩
        refine ⟨rounds + 1, ?_⟩
        rw [addLoop, hround]
        exact hloop

/-- An instant at work is its own next working instant. -/
theorem AtWork.next_self (h : calendar.AtWork day working cursor) :
    calendar.nextWorkingInstant cursor = .ok cursor := by
  have hwork : working.workFrom cursor = some cursor :=
    workFrom_eq_some.mpr (.inr ⟨h.start_le, h.lt_finish, rfl⟩)
  have hbind : (some working).bind (·.workFrom cursor) = some cursor := hwork
  rw [nextWorkingInstant, h.businessDate hcalendar, ok_bind, nextWorkingFrom.eq_def]
  dsimp only
  rw [h.interval, ok_bind, hbind]
  rfl

/-- The loop for a longer duration goes on where the loop for a shorter one ends. -/
theorem AtWork.loopEnds_add {rounds : ℕ} {first second result : ℤ}
    (h : calendar.AtWork day working cursor) (hfirst : 0 < first) (hsecond : 0 < second)
    (hloop : calendar.addLoop rounds first cursor = some (.ok result)) :
    calendar.LoopEnds (first + second) cursor outcome ↔
      calendar.Adds ⟨result, second⟩ outcome := by
  induction rounds generalizing day cursor first working with
  | zero => cases hloop
  | succ rounds ih =>
    rw [addLoop, h.addRound_eq hcalendar] at hloop
    rw [h.loopEnds_iff hcalendar]
    by_cases hends : first ≤ working.finish - cursor
    · rw [if_pos hends] at hloop
      obtain rfl := Except.ok.inj (Option.some.inj hloop)
      by_cases hlast : cursor + first = working.finish
      · rw [if_neg (by omega), hlast, show first + second - (working.finish - cursor) = second by
          omega]
      · -- the second addition goes on in the same working interval
        have hstart := h.start_le
        have hwithin : calendar.AtWork day working (cursor + first) :=
          ⟨h.interval, by omega, by omega⟩
        rw [adds_of_next hsecond.ne' (hwithin.next_self hcalendar), hwithin.loopEnds_iff hcalendar]
        by_cases hshort : first + second ≤ working.finish - cursor
        · rw [if_pos hshort, if_pos (by omega), add_assoc]
        · rw [if_neg hshort, if_neg (by omega), show first + second - (working.finish - cursor) =
            second - (working.finish - (cursor + first)) by omega]
    · rw [if_neg hends] at hloop
      rw [if_neg (by omega)]
      -- the working interval is used up, so both go on to the next one
      cases hnext : calendar.nextWorkingInstant working.finish with
      | error e =>
        rw [hnext] at hloop
        cases hloop
      | ok next =>
        rw [hnext] at hloop
        obtain ⟨day', working', -, hworks⟩ := h.next_eq_ok hcalendar hnext
        rw [adds_of_next (by omega) hnext, ← ih hworks.atWork (by omega) hloop,
          show first + second - (working.finish - cursor) =
            first - (working.finish - cursor) + second by omega]

/-- Adding twice is adding the sum. -/
theorem Divided.adds_add {first second result : ℤ} (hfirst : 0 ≤ first) (hsecond : 0 ≤ second)
    (h : calendar.Adds ⟨start, first⟩ (.ok result)) :
    calendar.Adds ⟨result, second⟩ outcome ↔ calendar.Adds ⟨start, first + second⟩ outcome := by
  rcases eq_or_lt_of_le hfirst with rfl | hfirst
  · obtain rfl := Except.ok.inj (adds_zero.mp h)
    rw [zero_add]
  rcases eq_or_lt_of_le hsecond with rfl | hsecond
  · rw [adds_zero, add_zero]
    constructor
    · rintro rfl
      exact h
    · exact fun h' => h'.unique h
  · cases hnext : calendar.nextWorkingInstant start with
    | error e =>
      rw [adds_of_error hfirst.ne' hnext] at h
      cases h
    | ok cursor =>
      rw [adds_of_next hfirst.ne' hnext] at h
      obtain ⟨rounds, hloop⟩ := h
      obtain ⟨first', day, working, -, hworks⟩ := nextWorkingInstant_eq_ok hcalendar hnext
      rw [adds_of_next (by omega) hnext]
      exact (hworks.atWork.loopEnds_add hcalendar hfirst hsecond hloop).symm

end ends

/-! ### The end of the loop -/

/-- The errors of an addition: the holiday horizon is reached, or a boundary of a workday is skipped
by the local clocks, shown twice or outside the supported range. -/
def additionErrors : List PyError := [
  .valueError "no working instant exists within the holiday horizon",
  .valueError "day exceeds the holiday horizon",
  .valueError "local boundary is nonexistent",
  .valueError "local boundary is ambiguous",
  datetimeRangeError]

section errors

variable {e : PyError} (he : e ∉ additionErrors)

include he

theorem toLocal_avoids {zone : TimeZone} {instant : ℤ} : Avoids e (toLocal zone instant) := by
  unfold toLocal
  refine Avoids.ite (avoids_ok _) (avoids_error.mpr ?_)
  rintro rfl
  exact he (by simp [additionErrors])

theorem toUtc_avoids {zone : TimeZone} {naive : ℤ} {fold : Bool} :
    Avoids e (toUtc zone naive fold) := by
  unfold toUtc
  refine Avoids.ite (avoids_ok _) (avoids_error.mpr ?_)
  rintro rfl
  exact he (by simp [additionErrors])

theorem resolveLocal_avoids {zone : TimeZone} {naive : ℤ} : Avoids e (resolveLocal zone naive) := by
  have hcandidate : ∀ fold, Avoids e (roundtripCandidate naive zone fold) := fun fold =>
    (toUtc_avoids he).bind fun _ _ => (toLocal_avoids he).bind fun _ _ => avoids_pure _
  refine (hcandidate false).bind fun first _ => (hcandidate true).bind fun second _ => ?_
  cases first with
  | none =>
    cases second with
    | none =>
      refine avoids_error.mpr ?_
      rintro rfl
      exact he (by simp [additionErrors])
    | some instant => exact avoids_ok _
  | some a =>
    cases second with
    | none => exact avoids_ok _
    | some b =>
      refine Avoids.ite (avoids_ok _) (avoids_error.mpr ?_)
      rintro rfl
      exact he (by simp [additionErrors])

theorem businessDate_avoids {instant : ℤ} : Avoids e (calendar.businessDate instant) :=
  (toLocal_avoids he).bind fun _ _ => avoids_pure _

variable (hcalendar : calendar.Divided)

include hcalendar

theorem workingInterval_avoids {day : ℤ} : Avoids e (calendar.workingInterval day) := by
  unfold workingInterval
  refine Avoids.bind ?_ fun _ _ => Avoids.ite (avoids_pure _) ?_
  · unfold require check
    refine Avoids.ite (avoids_ok _) (avoids_error.mpr ?_)
    rintro rfl
    exact he (by simp [additionErrors])
  · refine (resolveLocal_avoids he).bind fun start hstart =>
      (resolveLocal_avoids he).bind fun finish hfinish => Avoids.bind ?_ fun _ _ => avoids_pure _
    -- the boundaries are in the order of their clock times
    have hle : start ≤ finish := by
      refine hcalendar.zone.orderly _ _ _ _ ?_ hstart hfinish
      have hordered := hcalendar.ordered
      unfold atMinute
      omega
    rw [UtcInterval.create, require, check_of hle]
    exact avoids_pure _

theorem nextWorkingFrom_avoids {instant day : ℤ} {more : ℕ} :
    Avoids e (calendar.nextWorkingFrom instant more day) := by
  induction more generalizing day with
  | zero =>
    rw [nextWorkingFrom.eq_def]
    refine (workingInterval_avoids he hcalendar).bind fun found _ => ?_
    cases found.bind (·.workFrom instant) with
    | some next => exact avoids_pure _
    | none =>
      refine avoids_error.mpr ?_
      rintro rfl
      exact he (by simp [additionErrors])
  | succ more ih =>
    rw [nextWorkingFrom.eq_def]
    refine (workingInterval_avoids he hcalendar).bind fun found _ => ?_
    cases found.bind (·.workFrom instant) with
    | some next => exact avoids_pure _
    | none => exact ih

theorem nextWorkingInstant_avoids {instant : ℤ} : Avoids e (calendar.nextWorkingInstant instant) :=
  (businessDate_avoids he).bind fun _ _ => nextWorkingFrom_avoids he hcalendar

end errors

/-- The outcome is a result or one of the errors of an addition. -/
def AdditionOutcome (outcome : Result ℤ) : Prop :=
  ∀ e, outcome = .error e → e ∈ additionErrors

theorem additionOutcome_of_next (hcalendar : calendar.Divided) {instant : ℤ} {e : PyError}
    (h : calendar.nextWorkingInstant instant = .error e) : AdditionOutcome (.error e) := by
  intro e' he'
  cases he'
  by_contra hnot
  exact nextWorkingInstant_avoids hnot hcalendar h

/-- A loop that starts at work ends: every round but the last one leaves a date before the
horizon. -/
theorem AtWork.loop_ends (hcalendar : calendar.Divided) {day cursor : ℤ} {working : UtcInterval}
    (h : calendar.AtWork day working cursor) (remaining : ℤ) :
    ∃ outcome, calendar.LoopEnds remaining cursor outcome ∧ AdditionOutcome outcome := by
  obtain ⟨left, hleft⟩ : ∃ left, (calendar.holidayHorizonEnd - day).toNat = left := ⟨_, rfl⟩
  induction left using Nat.strong_induction_on generalizing day cursor remaining working with
  | _ left ih =>
    by_cases hends : remaining ≤ working.finish - cursor
    · refine ⟨.ok (cursor + remaining), ?_, nofun⟩
      rw [h.loopEnds_iff hcalendar, if_pos hends]
    · have hne : remaining - (working.finish - cursor) ≠ 0 := by omega
      cases hnext : calendar.nextWorkingInstant working.finish with
      | error e =>
        refine ⟨.error e, ?_, additionOutcome_of_next hcalendar hnext⟩
        rw [h.loopEnds_iff hcalendar, if_neg hends, adds_of_error hne hnext]
      | ok next =>
        obtain ⟨day', working', hlt, hworks⟩ := h.next_eq_ok hcalendar hnext
        have hhorizon := workingInterval_le hworks.atWork.interval
        obtain ⟨outcome, hloop, hpermitted⟩ := ih _ (by omega) hworks.atWork
          (remaining - (working.finish - cursor)) rfl
        refine ⟨outcome, ?_, hpermitted⟩
        rw [h.loopEnds_iff hcalendar, if_neg hends, adds_of_next hne hnext]
        exact hloop

/-- Every addition ends. -/
theorem Divided.add_ends (hcalendar : calendar.Divided) (request : BusinessTimeAddition) :
    ∃ outcome, calendar.Adds request outcome ∧ AdditionOutcome outcome := by
  by_cases hzero : request.duration = 0
  · exact ⟨.ok request.start, ⟨0, if_pos hzero⟩, nofun⟩
  · cases hnext : calendar.nextWorkingInstant request.start with
    | error e =>
      exact ⟨.error e, (adds_of_error hzero hnext).mpr rfl, additionOutcome_of_next hcalendar hnext⟩
    | ok cursor =>
      obtain ⟨first, day, working, -, hworks⟩ := nextWorkingInstant_eq_ok hcalendar hnext
      obtain ⟨outcome, hloop, hpermitted⟩ := hworks.atWork.loop_ends hcalendar request.duration
      exact ⟨outcome, (adds_of_next hzero hnext).mpr hloop, hpermitted⟩

end BusinessCalendar

open BusinessCalendar

/-- Adding business time inverts measuring it: the elapsed time up to the result is the duration and
shorter before, adding twice adds the sum, later results belong to longer durations, and the loop
ends with a result or one of its errors. -/
theorem add_inverts_elapsed (hzones : p.DividedZones) (hbuilt : calendar.Built p) :
    (∀ start duration result, 0 ≤ duration → calendar.Adds ⟨start, duration⟩ (.ok result) →
      (∃ dual, calendar.elapsed ⟨start, result⟩ = .ok dual ∧ dual.business = duration) ∧
      ∀ earlier dual, 0 < duration → start ≤ earlier → earlier < result →
        calendar.elapsed ⟨start, earlier⟩ = .ok dual → dual.business ≠ duration) ∧
    (∀ start first second result outcome, 0 ≤ first → 0 ≤ second →
      calendar.Adds ⟨start, first⟩ (.ok result) →
      (calendar.Adds ⟨result, second⟩ outcome ↔
        calendar.Adds ⟨start, first + second⟩ outcome)) ∧
    (∀ start shorter longer result later, 0 ≤ shorter → shorter ≤ longer →
      calendar.Adds ⟨start, shorter⟩ (.ok result) → calendar.Adds ⟨start, longer⟩ (.ok later) →
      result ≤ later) ∧
    ∀ request, ∃ outcome, calendar.Adds request outcome ∧ AdditionOutcome outcome ∧
      ∀ other, calendar.Adds request other → other = outcome := by
  have hcalendar := hbuilt.divided hzones
  refine ⟨?_, ?_, ?_, ?_⟩
  · -- the addition ends where the business time is first reached
    intro start duration result hnonneg h
    rcases eq_or_lt_of_le hnonneg with rfl | hpos
    · obtain rfl := Except.ok.inj (adds_zero.mp h)
      exact ⟨⟨⟨0, 0⟩, if_pos (sub_self _), rfl⟩, fun _ _ hpos => absurd hpos (lt_irrefl 0)⟩
    · obtain ⟨rounds, h⟩ := h
      obtain ⟨first, hfirst, hadds⟩ := hcalendar.add_eq_ok hpos h
      obtain ⟨last, hlast, hdefined⟩ := hadds.defined
      obtain ⟨dual, hdual⟩ := hcalendar.exists_elapsed hadds.lt hfirst hlast hdefined
      refine ⟨⟨dual, hdual, ?_⟩, fun earlier other _ hle hlt hother => ?_⟩
      · rw [(hcalendar.elapsed_eq hadds.lt.le hdual).2]
        exact hadds.elapsed
      · rw [(hcalendar.elapsed_eq hle hother).2]
        exact (hadds.least hlt).ne
  · exact fun start first second result outcome hfirst hsecond h =>
      hcalendar.adds_add hfirst hsecond h
  · -- the longer addition goes on where the shorter one ended
    intro start shorter longer result later hnonneg hle h hlater
    rw [show longer = shorter + (longer - shorter) by omega] at hlater
    rw [← hcalendar.adds_add hnonneg (by omega) h] at hlater
    rcases eq_or_lt_of_le (show 0 ≤ longer - shorter by omega) with hzero | hpos
    · rw [← hzero, adds_zero] at hlater
      exact (Except.ok.inj hlater).ge
    · obtain ⟨rounds, hlater⟩ := hlater
      obtain ⟨first, -, hadds⟩ := hcalendar.add_eq_ok hpos hlater
      exact hadds.lt.le
  · intro request
    obtain ⟨outcome, h, hpermitted⟩ := hcalendar.add_ends request
    exact ⟨outcome, h, hpermitted, fun other hother => hother.unique h⟩

/-- Two hours from the first Friday afternoon on end on Monday morning. -/
theorem add_inverts_elapsed_weekend :
    ∃ dual, smallCalendar.elapsed ⟨40 * microsecondsPerHour, 106 * microsecondsPerHour⟩ = .ok dual ∧
      dual.business = 2 * microsecondsPerHour :=
  ((add_inverts_elapsed utcPlatform_divided smallCalendar_built).1 (40 * microsecondsPerHour)
    (2 * microsecondsPerHour) (106 * microsecondsPerHour) (by decide) ⟨2, by decide +kernel⟩).1

/-! ### A boundary that the clocks skip -/

theorem springPlatform_divided : springPlatform.DividedZones := by
  intro name zone hzone naive instant hinstant other
  cases hzone
  have hshown := (resolveLocal_shows hinstant).1
  unfold springZone microsecondsPerHour at hshown ⊢
  dsimp only at hshown ⊢
  split_ifs at hshown ⊢ <;> omega

/-- Work from half past two on, on Sundays. -/
def sundayBlueprint : CalendarBlueprint :=
  { (smallDocument [dependencyRule] 0 0 0).calendar with
    workingWeekdays := [.SUN], workdayStart := 150, workdayEnd := 600 }

def sundayCalendar : BusinessCalendar where
  timezone := springZone (springSunday + microsecondsPerHour)
  weekdayIndices := [6]
  workdayStart := 150
  workdayEnd := 600
  holidayHorizonEnd := 100000
  holidays := []

/-- The addition of an hour from the Sunday on which the clocks go forward fails, because its
workday has no beginning. -/
theorem missingBoundary_add :
    springPlatform.DividedZones ∧ sundayCalendar.Built springPlatform ∧
      sundayCalendar.Adds ⟨springSunday, microsecondsPerHour⟩
        (.error (.valueError "local boundary is nonexistent")) :=
  ⟨springPlatform_divided, ⟨"Europe/Berlin", sundayBlueprint, rfl, by decide⟩, 1, by decide +kernel⟩

end JiraSimulator
