import JiraSimulator.Engine.Calendar

/-!
# The rounds of the tick schedule

The next working moment of a moment outside working hours is the start of the hours of the next
working day, at the offset that the zone gives for it.  Where the clock is set back over this start,
the offset can be the earlier one, and the next working moment lies before the moment it is asked
for.  So the tick times of a sprint can go back.

* `nextWorkingMoment_eq_ok`: how the next working moment comes about.
* `tickTimes_pairwise_iff`: the tick times do not decrease exactly when every round goes forward.
* `fixedZone_le_opening`: with one offset the hours of the next working day lie ahead.
-/

namespace JiraSimulator.Engine

open Library Library.Outcome

/-! ### The opening of a day -/

/-- An instant that a `datetime` can hold. -/
def InRange (instant : ℤ) : Prop :=
  minInstant ≤ instant ∧ instant ≤ maxInstant

/-- The wall-clock time of a full hour of a day. -/
def hourStart (day hour : ℤ) : ℤ :=
  day * microsecondsPerDay + hour * microsecondsPerHour

/-- The date of an instant on the wall clock. -/
def localDay (zone : TimeZone) (instant : ℤ) : ℤ :=
  dateOf (zone.fromUtc instant).1

/-- The hour of an instant on the wall clock. -/
def localHour (zone : TimeZone) (instant : ℤ) : ℤ :=
  hourOf (zone.fromUtc instant).1

theorem localHour_mem (zone : TimeZone) (instant : ℤ) :
    0 ≤ localHour zone instant ∧ localHour zone instant ≤ 23 := by
  unfold localHour hourOf microsecondsPerDay microsecondsPerHour
  omega

variable {hours : WorkingHours}

/-- The instant that the zone gives for the start of the working hours of a day: for today's, the
one in the fold of the moment. -/
def opening (hours : WorkingHours) (after day : ℤ) : ℤ :=
  hourStart day hours.startHour - hours.zone.utcOffset (hourStart day hours.startHour)
    (decide (day = localDay hours.zone after) && (hours.zone.fromUtc after).2)

/-- The working day whose hours come next, for a moment outside working hours: today, or one of the
thirty days after tomorrow's midnight. -/
structure NextWorkingDay (hours : WorkingHours) (after day : ℤ) : Prop where
  working : isWorkingDay hours day = true
  dated : day ≤ maxDate
  next : (day = localDay hours.zone after ∧ localHour hours.zone after < hours.startHour) ∨
    (localDay hours.zone after < day ∧ day ≤ localDay hours.zone after + maxLookaheadDays ∧
      (isWorkingDay hours (localDay hours.zone after) = true →
        hours.startHour ≤ localHour hours.zone after) ∧
      ∀ k, localDay hours.zone after < k → k < day → isWorkingDay hours k = false)

theorem NextWorkingDay.unique {after day day' : ℤ} (h : NextWorkingDay hours after day)
    (h' : NextWorkingDay hours after day') : day = day' := by
  have hworking := h.working
  have hworking' := h'.working
  rcases h.next with ⟨htoday, hbefore⟩ | ⟨hafter, -, hstarted, hnone⟩
  · rcases h'.next with ⟨htoday', -⟩ | ⟨-, -, hstarted', -⟩
    · exact htoday.trans htoday'.symm
    · have := hstarted' (htoday ▸ hworking)
      omega
  · rcases h'.next with ⟨htoday', hbefore'⟩ | ⟨hafter', -, -, hnone'⟩
    · have := hstarted (htoday' ▸ hworking')
      omega
    · -- neither day comes before the other
      have hle : ¬ day < day' := fun hlt => by simp [hnone' day hafter hlt] at hworking
      have hge : ¬ day' < day := fun hlt => by simp [hnone day' hafter' hlt] at hworking'
      omega

/-! ### The search for a working day -/

theorem nextDay_eq_ok {day day' : ℤ} (h : nextDay day = .ok day') :
    day' = day + 1 ∧ day' ≤ maxDate := by
  unfold nextDay at h
  split_ifs at h with hle
  obtain rfl := Except.ok.inj h
  exact ⟨rfl, hle⟩

/-- The first working day among some days in a row, when there is one. -/
def FirstWorkingDay (hours : WorkingHours) (day : ℤ) (days : ℕ) : Option ℤ → Prop
  | some found => day ≤ found ∧ found < day + days ∧ found ≤ maxDate ∧
      isWorkingDay hours found = true ∧
      ∀ k, day ≤ k → k < found → isWorkingDay hours k = false
  | none => ∀ k, day ≤ k → k < day + days → isWorkingDay hours k = false

theorem scanWorkingDay_eq_ok {days : ℕ} {day : ℤ} {found : Option ℤ} (hmax : day ≤ maxDate)
    (h : scanWorkingDay hours days day = .ok found) : FirstWorkingDay hours day days found := by
  induction days generalizing day with
  | zero =>
    cases h
    exact fun k hle hlt => absurd (hle.trans_lt hlt) (by simp)
  | succ days ih =>
    unfold scanWorkingDay at h
    split_ifs at h with hday
    · cases h
      exact ⟨le_rfl, by push_cast; omega, hmax, hday, fun k hle hlt => absurd hlt (by omega)⟩
    · simp only [bind_eq_ok] at h
      obtain ⟨day', hday', h⟩ := h
      obtain ⟨rfl, hmax'⟩ := nextDay_eq_ok hday'
      have hrest := ih hmax' h
      have hfree : isWorkingDay hours day = false := Bool.eq_false_iff.mpr hday
      cases found with
      | some found =>
        obtain ⟨hle, hlt, hdated, hworking, hfirst⟩ := hrest
        refine ⟨by omega, by push_cast; omega, hdated, hworking, fun k hk hbefore => ?_⟩
        rcases hk.lt_or_eq with hlt' | rfl
        · exact hfirst k (by omega) hbefore
        · exact hfree
      | none =>
        intro k hk hlt
        rcases hk.lt_or_eq with hlt' | rfl
        · exact hrest k (by omega) (by push_cast at hlt; omega)
        · exact hfree

/-! ### The next working moment -/

/-- How the next working moment comes about: a moment in working hours stays, and one outside goes
to the opening of the next working day, if there is one. -/
inductive NextMoment (hours : WorkingHours) (after : Moment) : Moment → Prop where
  | working (h : isWorkingLocal hours (hours.zone.fromUtc after.instant).1 = true) :
    NextMoment hours after after
  | opens (day : ℤ) (hnot : isWorkingLocal hours (hours.zone.fromUtc after.instant).1 = false)
    (hstart : 0 ≤ hours.startHour ∧ hours.startHour ≤ 23)
    (hday : NextWorkingDay hours after.instant day) :
    NextMoment hours after (.utc (opening hours after.instant day))
  | none (hnot : isWorkingLocal hours (hours.zone.fromUtc after.instant).1 = false)
    (hnone : ∀ day, ¬ NextWorkingDay hours after.instant day) : NextMoment hours after after

theorem localTime_eq_ok {zone : TimeZone} {instant : ℤ} {wall : ℤ × Bool}
    (h : localTime zone instant = .ok wall) : zone.fromUtc instant = wall ∧ InRange wall.1 := by
  unfold localTime at h
  dsimp only at h
  split_ifs at h with hrange
  obtain rfl := Except.ok.inj h
  exact ⟨rfl, hrange⟩

theorem fromLocal_eq_ok {zone : TimeZone} {naive : ℤ} {fold : Bool} {moment : Moment}
    (h : fromLocal zone naive fold = .ok moment) :
    moment = .utc (naive - zone.utcOffset naive fold) := by
  unfold fromLocal at h
  dsimp only at h
  split_ifs at h
  exact (Except.ok.inj h).symm

theorem atHour_eq_ok {day hour naive : ℤ} (h : atHour day hour = .ok naive) :
    (0 ≤ hour ∧ hour ≤ 23) ∧ naive = hourStart day hour := by
  simp only [atHour, require, bind_eq_ok, exists_unit, check_eq_ok, pure_eq_ok] at h
  exact ⟨h.1, h.2.symm⟩

theorem dateOf_le_maxDate {naive : ℤ} (h : naive ≤ maxInstant) : dateOf naive ≤ maxDate := by
  unfold maxInstant microsecondsPerDay at h
  unfold dateOf maxDate microsecondsPerDay
  omega

theorem nextWorkingMoment_eq_ok {after moment : Moment}
    (h : nextWorkingMoment hours after = .ok moment) :
    InRange (hours.zone.fromUtc after.instant).1 ∧ NextMoment hours after moment := by
  simp only [nextWorkingMoment, bind_eq_ok] at h
  obtain ⟨⟨naive, fold⟩, hlocal, h⟩ := h
  obtain ⟨hwall, hrange⟩ := localTime_eq_ok hlocal
  have hnaive : (hours.zone.fromUtc after.instant).1 = naive := by rw [hwall]
  have hfold : (hours.zone.fromUtc after.instant).2 = fold := by rw [hwall]
  have htoday : localDay hours.zone after.instant = dateOf naive := congrArg dateOf hnaive
  have hhour : localHour hours.zone after.instant = hourOf naive := congrArg hourOf hnaive
  refine ⟨hnaive ▸ hrange, ?_⟩
  dsimp only at h
  -- the moment itself, or else the opening of a working day
  by_cases hworking : isWorkingLocal hours naive = true
  · rw [if_pos hworking] at h
    cases h
    exact .working (hnaive ▸ hworking)
  have hnot : isWorkingLocal hours (hours.zone.fromUtc after.instant).1 = false := by
    rw [hnaive]
    exact Bool.eq_false_iff.mpr hworking
  rw [if_neg hworking] at h
  -- the day of the moment is still to open
  by_cases hearly : isWorkingDay hours (dateOf naive) = true ∧ hourOf naive < hours.startHour
  · rw [if_pos hearly] at h
    simp only [bind_eq_ok] at h
    obtain ⟨candidate, hcandidate, h⟩ := h
    obtain ⟨hstart, rfl⟩ := atHour_eq_ok hcandidate
    have hday : NextWorkingDay hours after.instant (dateOf naive) :=
      ⟨hearly.1, dateOf_le_maxDate hrange.2, .inl ⟨htoday.symm, hhour ▸ hearly.2⟩⟩
    have hopening : opening hours after.instant (dateOf naive) =
        hourStart (dateOf naive) hours.startHour -
          hours.zone.utcOffset (hourStart (dateOf naive) hours.startHour) fold := by
      simp [opening, htoday, hfold]
    rw [fromLocal_eq_ok h, ← hopening]
    exact .opens _ hnot hstart hday
  · rw [if_neg hearly] at h
    simp only [bind_eq_ok] at h
    obtain ⟨tomorrow, htomorrow, found, hfound, h⟩ := h
    obtain ⟨rfl, hmax⟩ := nextDay_eq_ok htomorrow
    -- a working day that has not opened would have been taken
    have hstarted : isWorkingDay hours (localDay hours.zone after.instant) = true →
        hours.startHour ≤ localHour hours.zone after.instant := by
      rw [htoday, hhour]
      exact fun hday => not_lt.mp fun hlt => hearly ⟨hday, hlt⟩
    have hscan := scanWorkingDay_eq_ok hmax hfound
    cases found with
    | some day =>
      simp only [bind_eq_ok] at h
      obtain ⟨candidate, hcandidate, h⟩ := h
      obtain ⟨hstart, rfl⟩ := atHour_eq_ok hcandidate
      obtain ⟨hle, hlt, hdated, hworkday, hfirst⟩ := hscan
      have hday : NextWorkingDay hours after.instant day := by
        refine ⟨hworkday, hdated, .inr ⟨by omega, by omega, hstarted, fun k hk => hfirst k ?_⟩⟩
        omega
      have hne : day ≠ dateOf naive := by omega
      have hopening : opening hours after.instant day = hourStart day hours.startHour -
          hours.zone.utcOffset (hourStart day hours.startHour) false := by
        simp [opening, htoday, hne]
      rw [fromLocal_eq_ok h, ← hopening]
      exact .opens day hnot hstart hday
    | none =>
      cases h
      -- thirty free days leave the moment as it is
      refine .none hnot fun day hday => ?_
      rcases hday.next with ⟨rfl, hbefore⟩ | ⟨hafter, hnear, -⟩
      · have := hstarted hday.working
        omega
      · have hfree := hscan day (by omega) (by omega)
        rw [hday.working] at hfree
        cases hfree

/-! ### The rounds -/

/-- The round of the schedule from the tick does not go back: the hours of the working day that come
next after it begin at the tick or later, and where none come the ticks have a length. -/
structure RoundForward (hours : WorkingHours) (tickDelta tick : ℤ) : Prop where
  opens : ∀ day, isWorkingLocal hours (hours.zone.fromUtc (tick + tickDelta)).1 = false →
    NextWorkingDay hours (tick + tickDelta) day → tick ≤ opening hours (tick + tickDelta) day
  stays : isWorkingLocal hours (hours.zone.fromUtc (tick + tickDelta)).1 = true ∨
    (∀ day, ¬ NextWorkingDay hours (tick + tickDelta) day) → 0 ≤ tickDelta

/-- A round goes forward exactly when it does not go back. -/
theorem NextMoment.forward_iff {drifted next : Moment} {tickDelta tick : ℤ}
    (h : NextMoment hours drifted next) (hdrifted : drifted.instant = tick + tickDelta) :
    tick ≤ next.instant ↔ RoundForward hours tickDelta tick := by
  cases h with
  | working hworking =>
    rw [hdrifted] at hworking ⊢
    constructor
    · refine fun hle => ⟨fun day hnot _ => ?_, fun _ => by omega⟩
      rw [hworking] at hnot
      cases hnot
    · intro hforward
      have := hforward.stays (.inl hworking)
      omega
  | opens day hnot _ hday =>
    rw [hdrifted] at hnot hday
    show tick ≤ opening hours drifted.instant day ↔ _
    rw [hdrifted]
    constructor
    · refine fun hle => ⟨fun day' _ hday' => ?_, fun hstays => ?_⟩
      · rwa [hday'.unique hday]
      · rcases hstays with hworking | hnone
        · rw [hnot] at hworking
          cases hworking
        · exact absurd hday (hnone day)
    · exact fun hforward => hforward.opens day hnot hday
  | none hnot hnone =>
    rw [hdrifted] at hnot hnone ⊢
    constructor
    · exact fun hle => ⟨fun day _ hday => absurd hday (hnone day), fun _ => by omega⟩
    · intro hforward
      have := hforward.stays (.inr hnone)
      omega

section schedule

variable {sprintEnd : Moment} {tickDelta : ℤ}

theorem before_eq_ok {a b : Moment} {earlier : Bool} (h : a.before b = .ok earlier) :
    earlier = decide (a.instant < b.instant) := by
  unfold Moment.before at h
  split_ifs at h
  exact (Except.ok.inj h).symm

theorem add_eq_ok {a b : Moment} {delta : ℤ} (h : a.add delta = .ok b) :
    b.instant = a.instant + delta ∧ InRange b.instant := by
  simp only [Moment.add, addDuration, bind_eq_ok, pure_eq_ok] at h
  obtain ⟨instant, hinstant, rfl⟩ := h
  split_ifs at hinstant with hrange
  obtain rfl := Except.ok.inj hinstant
  exact ⟨rfl, hrange⟩

/-- One round of the loop. -/
theorem tickTimesFrom_succ {fuel : ℕ} {current : Moment} {times : Option (List Moment)}
    (h : tickTimesFrom hours sprintEnd tickDelta (fuel + 1) current = .ok times) :
    (sprintEnd.instant ≤ current.instant ∧ times = some []) ∨
    (current.instant < sprintEnd.instant ∧ ∃ drifted next rest,
      drifted.instant = current.instant + tickDelta ∧ InRange drifted.instant ∧
      nextWorkingMoment hours drifted = .ok next ∧
      tickTimesFrom hours sprintEnd tickDelta fuel next = .ok rest ∧
      times = rest.map fun times => current :: times) := by
  simp only [tickTimesFrom, bind_eq_ok] at h
  obtain ⟨earlier, hearlier, h⟩ := h
  rw [before_eq_ok hearlier] at h
  by_cases hlt : current.instant < sprintEnd.instant
  · rw [decide_eq_true hlt, if_pos rfl] at h
    simp only [bind_eq_ok, pure_eq_ok] at h
    obtain ⟨drifted, hdrifted, next, hnext, rest, hrest, rfl⟩ := h
    obtain ⟨hsum, hrange⟩ := add_eq_ok hdrifted
    exact .inr ⟨hlt, drifted, next, rest, hsum, hrange, hnext, hrest, rfl⟩
  · rw [decide_eq_false hlt, if_neg (by decide)] at h
    cases h
    exact .inl ⟨not_lt.mp hlt, rfl⟩

/-- A loop that starts before the end of the sprint starts with a tick. -/
theorem tickTimesFrom_head {fuel : ℕ} {current : Moment} {times : List Moment}
    (h : tickTimesFrom hours sprintEnd tickDelta fuel current = .ok (some times)) :
    (times = [] ∧ sprintEnd.instant ≤ current.instant) ∨ ∃ rest, times = current :: rest := by
  cases fuel with
  | zero => cases h
  | succ fuel =>
    rcases tickTimesFrom_succ h with ⟨hle, hnil⟩ | ⟨-, -, -, rest, -, -, -, -, hcons⟩
    · exact .inl ⟨Option.some.inj hnil, hle⟩
    · cases rest with
      | none => cases hcons
      | some rest => exact .inr ⟨rest, Option.some.inj hcons⟩

/-- The ticks from a moment do not decrease exactly when every round goes forward. -/
theorem tickTimesFrom_pairwise_iff {fuel : ℕ} {current : Moment} {times : List Moment}
    (h : tickTimesFrom hours sprintEnd tickDelta fuel current = .ok (some times)) :
    (times.Pairwise fun a b => a.instant ≤ b.instant) ↔
      ∀ tick ∈ times, RoundForward hours tickDelta tick.instant := by
  induction fuel generalizing current times with
  | zero => cases h
  | succ fuel ih =>
    rcases tickTimesFrom_succ h with
      ⟨-, hnil⟩ | ⟨hlt, drifted, next, rest, hdrifted, -, hnext, hrest, hcons⟩
    · cases hnil
      simp
    cases rest with
    | none => cases hcons
    | some rest =>
      cases hcons
      have hround := (nextWorkingMoment_eq_ok hnext).2.forward_iff hdrifted
      rw [List.pairwise_cons, List.forall_mem_cons, ih hrest, ← hround]
      refine and_congr_left fun hforward => ?_
      rcases tickTimesFrom_head hrest with ⟨rfl, hend⟩ | ⟨rest', rfl⟩
      · -- the round from the last tick leads to the end of the sprint
        simp only [List.not_mem_nil, false_imp_iff, implies_true, true_iff]
        omega
      · have hpairwise := (ih hrest).mpr hforward
        constructor
        · exact fun hall => hall next List.mem_cons_self
        · intro hle tick htick
          rcases List.mem_cons.mp htick with rfl | htick
          · exact hle
          · exact hle.trans ((List.pairwise_cons.mp hpairwise).1 tick htick)

/-- The tick times of a sprint do not decrease exactly when every round goes forward. -/
theorem tickTimes_pairwise_iff {fuel : ℕ} {sprintStart : Moment} {sprintLengthDays : ℤ}
    {tickDurationHours : ℚ} {times : List Moment}
    (hdelta : timedeltaHours tickDurationHours = .ok tickDelta)
    (h : computeTickWallTimes hours fuel sprintStart sprintLengthDays tickDurationHours =
      .ok (some times)) : (times.Pairwise fun a b => a.instant ≤ b.instant) ↔
        ∀ tick ∈ times, RoundForward hours tickDelta tick.instant := by
  simp only [computeTickWallTimes, hdelta, bind_eq_ok, ok_bind] at h
  obtain ⟨sprintEnd, -, current, -, h⟩ := h
  exact tickTimesFrom_pairwise_iff h

end schedule

/-! ### A zone with one offset -/

/-- A zone with one offset. -/
def fixedZone (offset : ℤ) : TimeZone where
  utcOffset _ _ := offset
  fromUtc instant := (instant + offset, false)

/-- With one offset the hours of the next working day lie ahead. -/
theorem fixedZone_le_opening {offset after day : ℤ} (hzone : hours.zone = fixedZone offset)
    (hday : NextWorkingDay hours after day) (hstart : 0 ≤ hours.startHour) :
    after ≤ opening hours after day := by
  have hnext := hday.next
  unfold opening
  simp only [hzone, fixedZone, localDay, localHour, hourOf, dateOf, hourStart, microsecondsPerDay,
    microsecondsPerHour] at hnext ⊢
  omega

/-- With one offset and ticks of some length every round goes forward. -/
theorem fixedZone_roundForward {offset tickDelta tick : ℤ} (hzone : hours.zone = fixedZone offset)
    (hstart : 0 ≤ hours.startHour) (hdelta : 0 ≤ tickDelta) :
    RoundForward hours tickDelta tick := by
  refine ⟨fun day _ hday => ?_, fun _ => hdelta⟩
  have := fixedZone_le_opening hzone hday hstart
  omega

end JiraSimulator.Engine
