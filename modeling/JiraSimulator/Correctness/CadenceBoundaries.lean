import JiraSimulator.Correctness.BusinessMeasure

/-!
# Cadence boundaries

Every boundary shows the anchor's clock time, a whole number of cadences after the anchor's date.
Wall clocks that never differ from each other by a day keep the order of such times, so the
boundaries increase, and the sprint that contains an instant is found by counting up.

* `cadence_boundaries`: the boundaries increase, fall on their dates and enclose one sprint each.
-/

namespace JiraSimulator

open Library Library.Outcome

variable {calendar : BusinessCalendar} {rule : CadenceRule}

/-! ### Wall-clock times of the boundaries -/

/-- The UTC offset that a time zone shows at an instant. -/
def TimeZone.offsetAt (zone : TimeZone) (instant : ℤ) : ℤ :=
  (zone.fromUtc instant).1 - instant

/-- The UTC offsets at any two instants differ by less than a day. -/
def TimeZone.OffsetsWithinDay (zone : TimeZone) : Prop :=
  ∀ first second, zone.offsetAt first - zone.offsetAt second < microsecondsPerDay

/-- What an ordinal other than zero stands for. -/
theorem cadenceBoundary_eq_ok {ordinal : ℕ} {boundary : ℤ} (hpos : 0 < ordinal)
    (h : cadenceBoundary calendar rule ordinal = .ok boundary) :
    ∃ wall, toLocal calendar.timezone rule.anchor = .ok wall ∧
      resolveLocal calendar.timezone
        (wall.1 + (rule.cadenceDays * ordinal : ℕ) * microsecondsPerDay) = .ok boundary := by
  rw [cadenceBoundary, if_neg (by omega)] at h
  simp only [bind_eq_ok] at h
  obtain ⟨wall, hwall, h⟩ := h
  split_ifs at h
  exact ⟨wall, hwall, h⟩

theorem fromUtc_of_toLocal {zone : TimeZone} {instant : ℤ} {wall : ℤ × Bool}
    (h : toLocal zone instant = .ok wall) :
    zone.fromUtc instant = wall ∧ minInstant ≤ wall.1 ∧ wall.1 ≤ maxInstant := by
  unfold toLocal at h
  dsimp only at h
  split_ifs at h with hrange
  cases h
  exact ⟨rfl, hrange⟩

/-- Every boundary shows the clock time of the anchor, its cadences later. -/
theorem cadenceBoundary_shows {ordinal : ℕ} {boundary : ℤ}
    (h : cadenceBoundary calendar rule ordinal = .ok boundary) :
    (calendar.timezone.fromUtc boundary).1 = (calendar.timezone.fromUtc rule.anchor).1 +
      (rule.cadenceDays * ordinal : ℕ) * microsecondsPerDay := by
  rcases Nat.eq_zero_or_pos ordinal with rfl | hpos
  · rw [cadenceBoundary, if_pos rfl, Except.ok.injEq] at h
    rw [← h, Nat.mul_zero, Nat.cast_zero, zero_mul, add_zero]
  · obtain ⟨wall, hwall, hresolve⟩ := cadenceBoundary_eq_ok hpos h
    rw [(resolveLocal_shows hresolve).1, (fromUtc_of_toLocal hwall).1]

/-- Later boundaries are later. -/
theorem cadenceBoundary_lt (hoffsets : calendar.timezone.OffsetsWithinDay)
    (hdays : 0 < rule.cadenceDays) {m n : ℕ} {earlier later : ℤ} (hlt : m < n)
    (hearlier : cadenceBoundary calendar rule m = .ok earlier)
    (hlater : cadenceBoundary calendar rule n = .ok later) : earlier < later := by
  have hshown := cadenceBoundary_shows hearlier
  have hshown' := cadenceBoundary_shows hlater
  have hoffset := hoffsets later earlier
  unfold TimeZone.offsetAt at hoffset
  -- the wall-clock times are at least a day apart
  have hapart : rule.cadenceDays * m + 1 ≤ rule.cadenceDays * n := by
    calc rule.cadenceDays * m + 1 ≤ rule.cadenceDays * m + rule.cadenceDays := by omega
      _ = rule.cadenceDays * (m + 1) := by ring
      _ ≤ rule.cadenceDays * n := Nat.mul_le_mul_left _ hlt
  unfold microsecondsPerDay at hshown hshown' hoffset
  omega

/-- The boundary falls on the anchor's local date, its cadences later, at the anchor's clock time.
-/
def FallsOnCadence (calendar : BusinessCalendar) (rule : CadenceRule) (ordinal : ℕ)
    (boundary : ℤ) : Prop :=
  ∃ anchorWall wall, toLocal calendar.timezone rule.anchor = .ok anchorWall ∧
    toLocal calendar.timezone boundary = .ok wall ∧
    dateOf wall.1 = dateOf anchorWall.1 + (ordinal * rule.cadenceDays : ℕ) ∧
    wall.1 % microsecondsPerDay = anchorWall.1 % microsecondsPerDay

theorem cadenceBoundary_falls {ordinal : ℕ} {boundary : ℤ} (hpos : 0 < ordinal)
    (h : cadenceBoundary calendar rule ordinal = .ok boundary) :
    FallsOnCadence calendar rule ordinal boundary := by
  obtain ⟨anchorWall, hanchor, hresolve⟩ := cadenceBoundary_eq_ok hpos h
  obtain ⟨fold, hwall⟩ := resolveLocal_eq_ok hresolve
  refine ⟨anchorWall, _, hanchor, hwall, ?_, ?_⟩
  · rw [Nat.mul_comm ordinal]
    unfold dateOf microsecondsPerDay
    omega
  · exact Int.add_mul_emod_self_right _ _ _

/-- No more boundaries than dates lie in the supported range. -/
theorem cadenceBoundary_bounded (hdays : 0 < rule.cadenceDays) {boundary : ℤ} :
    cadenceBoundary calendar rule (supportedDates + 1) ≠ .ok boundary := by
  intro h
  obtain ⟨wall, hwall, hresolve⟩ := cadenceBoundary_eq_ok (Nat.succ_pos _) h
  obtain ⟨-, hmin, -⟩ := fromUtc_of_toLocal hwall
  obtain ⟨-, -, hmax⟩ := resolveLocal_shows hresolve
  have hmany : supportedDates + 1 ≤ rule.cadenceDays * (supportedDates + 1) :=
    Nat.le_mul_of_pos_left _ hdays
  unfold minInstant at hmin
  unfold maxInstant at hmax
  unfold supportedDates at hmany hmax
  unfold microsecondsPerDay at hmin hmax
  omega

/-! ### The containing sprint -/

/-- The instant lies in the sprint between an ordinal's boundary and the next one. -/
def InSprint (calendar : BusinessCalendar) (rule : CadenceRule) (startedAt : ℤ)
    (ordinal : ℕ) : Prop :=
  ∃ start finish, cadenceBoundary calendar rule ordinal = .ok start ∧
    cadenceBoundary calendar rule (ordinal + 1) = .ok finish ∧
    start ≤ startedAt ∧ startedAt < finish

/-- The boundaries after the anchor, up to an ordinal, are not later than the instant. -/
def BoundariesPassed (calendar : BusinessCalendar) (rule : CadenceRule) (startedAt : ℤ)
    (ordinal : ℕ) : Prop :=
  ∀ k < ordinal, ∃ boundary, cadenceBoundary calendar rule (k + 1) = .ok boundary ∧
    boundary ≤ startedAt

/-- Every boundary that the search for the instant asks for is defined. -/
def BoundariesDefined (calendar : BusinessCalendar) (rule : CadenceRule) (startedAt : ℤ) : Prop :=
  ∀ ordinal, BoundariesPassed calendar rule startedAt ordinal →
    ∃ boundary, cadenceBoundary calendar rule (ordinal + 1) = .ok boundary

section search

variable {startedAt : ℤ}

theorem BoundariesPassed.succ {ordinal : ℕ} {boundary : ℤ}
    (h : BoundariesPassed calendar rule startedAt ordinal)
    (hboundary : cadenceBoundary calendar rule (ordinal + 1) = .ok boundary)
    (hle : boundary ≤ startedAt) : BoundariesPassed calendar rule startedAt (ordinal + 1) := by
  intro k hk
  rcases Nat.lt_succ_iff_lt_or_eq.mp hk with hk | rfl
  · exact h k hk
  · exact ⟨boundary, hboundary, hle⟩

theorem BoundariesPassed.inSprint {ordinal : ℕ} {finish : ℤ}
    (h : BoundariesPassed calendar rule startedAt ordinal) (hanchor : rule.anchor ≤ startedAt)
    (hfinish : cadenceBoundary calendar rule (ordinal + 1) = .ok finish)
    (hlt : startedAt < finish) : InSprint calendar rule startedAt ordinal := by
  cases ordinal with
  | zero => exact ⟨rule.anchor, finish, if_pos rfl, hfinish, hanchor, hlt⟩
  | succ ordinal =>
    obtain ⟨start, hstart, hle⟩ := h ordinal (Nat.lt_succ_self _)
    exact ⟨start, finish, hstart, hfinish, hle, hlt⟩

/-- The search goes on while boundaries have passed, and fewer dates than rounds are left. -/
theorem advanceSprintOrdinal_inSprint (hdays : 0 < rule.cadenceDays)
    (hanchor : rule.anchor ≤ startedAt) (hdefined : BoundariesDefined calendar rule startedAt)
    {fuel ordinal : ℕ} (hfuel : fuel + ordinal = supportedDates + 1)
    (hpassed : BoundariesPassed calendar rule startedAt ordinal) :
    ∃ n, advanceSprintOrdinal calendar rule startedAt fuel ordinal = .ok n ∧
      InSprint calendar rule startedAt n := by
  induction fuel generalizing ordinal with
  | zero =>
    obtain ⟨boundary, hboundary, -⟩ := hpassed supportedDates (by omega)
    exact absurd hboundary (cadenceBoundary_bounded hdays)
  | succ fuel ih =>
    obtain ⟨boundary, hboundary⟩ := hdefined ordinal hpassed
    rw [advanceSprintOrdinal, hboundary, ok_bind]
    by_cases hle : boundary ≤ startedAt
    · rw [if_pos hle]
      exact ih (by omega) (hpassed.succ hboundary hle)
    · rw [if_neg hle]
      exact ⟨ordinal, rfl, hpassed.inSprint hanchor hboundary (by omega)⟩

/-- An instant lies in one sprint only. -/
theorem InSprint.unique (hoffsets : calendar.timezone.OffsetsWithinDay)
    (hdays : 0 < rule.cadenceDays) {m n : ℕ} (hm : InSprint calendar rule startedAt m)
    (hn : InSprint calendar rule startedAt n) : m = n := by
  -- a later sprint starts no earlier than the other one ends
  have hnot : ∀ {k l : ℕ}, InSprint calendar rule startedAt k →
      InSprint calendar rule startedAt l → ¬ k < l := by
    rintro k l ⟨-, finish, -, hfinish, -, hbefore⟩ ⟨start, -, hstart, -, hafter, -⟩ hlt
    rcases Nat.lt_or_eq_of_le (Nat.succ_le_of_lt hlt) with hlt | rfl
    · have hordered := cadenceBoundary_lt hoffsets hdays hlt hfinish hstart
      omega
    · rw [hfinish, Except.ok.injEq] at hstart
      omega
  have hle := hnot hn hm
  have hge := hnot hm hn
  omega

end search

/-- In a zone whose offsets differ by less than a day, the boundaries increase with the ordinal,
each falls on its date at the anchor's clock time, and the search for an instant from the anchor on
ends with the one sprint that contains it. -/
theorem cadence_boundaries (hoffsets : calendar.timezone.OffsetsWithinDay)
    (hdays : 0 < rule.cadenceDays) :
    (∀ m n earlier later, m < n → cadenceBoundary calendar rule m = .ok earlier →
      cadenceBoundary calendar rule n = .ok later → earlier < later) ∧
    (∀ ordinal boundary, 0 < ordinal → cadenceBoundary calendar rule ordinal = .ok boundary →
      FallsOnCadence calendar rule ordinal boundary) ∧
    ∀ startedAt, rule.anchor ≤ startedAt → BoundariesDefined calendar rule startedAt →
      ∃ n, containingSprintOrdinal calendar rule startedAt = .ok n ∧
        InSprint calendar rule startedAt n ∧
        ∀ m, InSprint calendar rule startedAt m → m = n := by
  refine ⟨fun m n earlier later => cadenceBoundary_lt hoffsets hdays,
    fun ordinal boundary => cadenceBoundary_falls, fun startedAt hanchor hdefined => ?_⟩
  obtain ⟨n, hn, hin⟩ := advanceSprintOrdinal_inSprint hdays hanchor hdefined
    (Nat.add_zero _) fun k hk => absurd hk (Nat.not_lt_zero k)
  refine ⟨n, ?_, hin, fun m hm => hm.unique hoffsets hdays hin⟩
  rw [containingSprintOrdinal, if_neg (by omega)]
  exact hn

/-- Sprints of two weeks from midnight of the first day on. -/
def fortnights : CadenceRule where
  anchor := 0
  cadenceDays := 14

theorem fortnights_defined :
    BoundariesDefined smallCalendar fortnights (20 * microsecondsPerDay) := by
  have hfirst : cadenceBoundary smallCalendar fortnights 1 = .ok (14 * microsecondsPerDay) := by
    decide +kernel
  have hsecond : cadenceBoundary smallCalendar fortnights 2 = .ok (28 * microsecondsPerDay) := by
    decide +kernel
  intro ordinal hpassed
  match ordinal with
  | 0 => exact ⟨_, hfirst⟩
  | 1 => exact ⟨_, hsecond⟩
  | ordinal + 2 =>
    -- the second boundary has not passed
    obtain ⟨boundary, hboundary, hle⟩ := hpassed 1 (by omega)
    rw [hsecond, Except.ok.injEq] at hboundary
    unfold microsecondsPerDay at hboundary hle
    omega

/-- The twentieth day lies in one sprint. -/
theorem fortnights_boundaries :
    ∃ n, containingSprintOrdinal smallCalendar fortnights (20 * microsecondsPerDay) = .ok n ∧
      InSprint smallCalendar fortnights (20 * microsecondsPerDay) n := by
  have hoffsets : smallCalendar.timezone.OffsetsWithinDay := by
    intro first second
    unfold TimeZone.offsetAt smallCalendar microsecondsPerDay
    dsimp only
    omega
  obtain ⟨n, hn, hin, -⟩ := (cadence_boundaries hoffsets (show 0 < fortnights.cadenceDays by
    decide)).2.2 (20 * microsecondsPerDay) (by decide) fortnights_defined
  exact ⟨n, hn, hin⟩

end JiraSimulator
