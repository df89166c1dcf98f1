import JiraSimulator.Correctness.Enterable
import JiraSimulator.Correctness.Scripts
import JiraSimulator.Library.DoubleRounding

/-!
# The two conversions of touch hours

A new visit takes its work from a rounded double product, while its sample, like the bootstrap,
converts the same hours exactly and rounds once.  The two differ where the double product lands on a
half microsecond beside an odd one, or where doubles are too coarse to hold the product.

* `touch_conversions_agree`: the hours for which the two conversions agree, and that a due visit can
  be created for these hours only.
-/

namespace JiraSimulator

open Library Library.Outcome

variable {p : Platform}

/-- The product of the hours and the microseconds of an hour, which `_hours_to_microseconds` rounds
once. -/
def exactMicroseconds (hours : ℚ) : ℚ :=
  hours * microsecondsPerHour

/-- The hours whose exact microseconds are rounded alike at once and through a double, to a value
that a row can hold. -/
structure ConvertsAlike (hours : ℚ) : Prop where
  once : Rounding.RoundsOnce 53 (exactMicroseconds hours)
  storable : exactMicroseconds hours < maxSqliteInteger + 1 / 2

/-! ### Values -/

theorem floatOfInt_microsecondsPerHour : floatOfInt microsecondsPerHour = microsecondsPerHour := by
  decide +kernel

/-- The double product is the exact one, rounded to a double. -/
theorem hoursToRoundedMicroseconds_eq (hours : ℚ) : hoursToRoundedMicroseconds hours =
    Rounding.roundHalfEven (Rounding.roundToPrecision 53 (exactMicroseconds hours)) := by
  unfold hoursToRoundedMicroseconds
  rw [floatOfInt_microsecondsPerHour]
  rfl

theorem roundedMicroseconds_eq_exact_iff {hours : ℚ} :
    hoursToRoundedMicroseconds hours = Rounding.roundHalfEven (exactMicroseconds hours) ↔
      Rounding.RoundsOnce 53 (exactMicroseconds hours) := by
  rw [hoursToRoundedMicroseconds_eq]
  exact Rounding.roundTwice_eq_iff

/-- The largest integer of a row is odd, so a half above it no longer rounds to it. -/
theorem roundHalfEven_le_maxSqliteInteger {q : ℚ} :
    Rounding.roundHalfEven q ≤ maxSqliteInteger ↔ q < maxSqliteInteger + 1 / 2 := by
  have hround := Rounding.roundHalfEven_eq_iff.mp
    (rfl : Rounding.roundHalfEven q = Rounding.roundHalfEven q)
  set n := Rounding.roundHalfEven q
  have hodd : maxSqliteInteger % 2 = 1 := by decide
  constructor
  · intro hle
    have hle' : (n : ℚ) ≤ maxSqliteInteger := by exact_mod_cast hle
    rcases hround with hnear | ⟨htie, heven⟩
    · have := (abs_lt.mp hnear).2
      linarith
    · have hlt : n < maxSqliteInteger := by
        rcases hle.lt_or_eq with hlt | heq
        · exact_mod_cast hlt
        · omega
      have hlt' : (n : ℚ) + 1 ≤ maxSqliteInteger := by exact_mod_cast hlt
      have := (abs_le.mp htie.le).2
      linarith
  · intro hlt
    have hnear : |q - n| ≤ 1 / 2 := hround.elim le_of_lt fun htie => htie.1.le
    have hlow := (abs_le.mp hnear).1
    have hlt' : (n : ℚ) < (maxSqliteInteger : ℤ) + 1 := by
      push_cast
      linarith
    have : n < (maxSqliteInteger : ℤ) + 1 := by exact_mod_cast hlt'
    omega

/-- The amount of a new visit is the one that its sample requires for these hours only. -/
theorem hoursToMicroseconds_eq_rounded_iff {hours : ℚ} (hhours : 0 ≤ hours) :
    hoursToMicroseconds hours = .ok (hoursToRoundedMicroseconds hours) ↔ ConvertsAlike hours := by
  have hnonneg : 0 ≤ Rounding.roundHalfEven (exactMicroseconds hours) :=
    Rounding.roundHalfEven_nonneg (mul_nonneg hhours (by decide))
  rw [hoursToMicroseconds_eq_ok]
  constructor
  · rintro ⟨-, ⟨-, hle⟩, heq⟩
    rw [← heq] at hle
    exact ⟨roundedMicroseconds_eq_exact_iff.mp heq.symm, roundHalfEven_le_maxSqliteInteger.mp hle⟩
  · rintro ⟨honce, hstorable⟩
    have heq := roundedMicroseconds_eq_exact_iff.mpr honce
    have hle := roundHalfEven_le_maxSqliteInteger.mpr hstorable
    rw [← heq] at hnonneg hle
    exact ⟨hhours, ⟨hnonneg, hle⟩, heq.symm⟩

/-! ### Visits -/

/-- A visit of a step is due: the item stands in the step, its team is sampled, and its row is valid
apart from the work that the touch time gives. -/
structure VisitDue (blueprint : ResolvedTeamBlueprint) (work : WorkItemState)
    (step : WorkflowRouteStep) (ordinal : ℕ) (entry : TimingEntry) : Prop where
  valid : work.Valid
  current : work.currentStatusKey = step.statusKey
  team : SampledTeam blueprint work
  listed : entry ∈ blueprint.timing.entries
  cell : entry.cell = (step.statusKey, work.issueType, work.storyPoints)
  safe : ordinal ≤ maxSafeInteger
  status : isCanonicalText step.statusKey = true
  activity : ∃ activity, step.requiredActivity = some activity ∧ isCanonicalText activity = true

namespace VisitDue

variable {blueprint : ResolvedTeamBlueprint} {work : WorkItemState} {step : WorkflowRouteStep}
  {ordinal : ℕ} {entry : TimingEntry}

/-- The touch time of a due visit fits when its two conversions agree. -/
theorem touchFits_iff (h : VisitDue blueprint work step ordinal entry) {draw : UniformDraw}
    {hours : ℚ} (hu : 0 ≤ draw.unitValue ∧ draw.unitValue ≤ 1)
    (hsample : sampleTouch (touchBoundsOf entry) draw.unitValue = .ok hours) :
    TouchFits step entry draw ↔ ConvertsAlike hours := by
  have hbounds := (blueprint.touchBounds_valid h.listed).1
  obtain ⟨hrange, htime⟩ := (sampleTouch_eq_ok hbounds hu).mp hsample
  have hwork : touchWork entry draw = hoursToRoundedMicroseconds hours := by
    rw [← htime]
    rfl
  constructor
  · intro hfits
    have heq : hoursToRoundedMicroseconds hours =
        Rounding.roundHalfEven (exactMicroseconds hours) := by
      have hrounding := hfits.rounding
      rw [hwork] at hrounding
      rw [hrounding, ← htime]
      rfl
    have hle := hfits.storable
    rw [hwork, heq] at hle
    exact ⟨roundedMicroseconds_eq_exact_iff.mp heq, roundHalfEven_le_maxSqliteInteger.mp hle⟩
  · intro halike
    have heq := roundedMicroseconds_eq_exact_iff.mpr halike.once
    obtain ⟨activity, hactivity, -⟩ := h.activity
    have htime' : touchTime entry draw = hours := htime
    exact {
      minimum := htime' ▸ hrange.1
      maximum := htime' ▸ hrange.2
      rounding := by
        rw [hwork, heq, htime']
        rfl
      storable := by
        rw [hwork, heq]
        exact roundHalfEven_le_maxSqliteInteger.mpr halike.storable
      zeroTouch := fun hnone => by rw [hactivity] at hnone; cases hnone }

/-- A due visit with accepted touch hours is created when its two conversions agree. -/
theorem created_iff (h : VisitDue blueprint work step ordinal entry) {hours : ℚ}
    (hsample : sampleTouch (touchBoundsOf entry)
      (touchDrawOf p blueprint work ordinal).unitValue = .ok hours) (enteredAt : ℤ) :
    (∃ visit sample, newSampledVisit p blueprint work step ordinal enteredAt
      (seededDraws p blueprint work) = .ok (visit, sample)) ↔ ConvertsAlike hours := by
  have hu := unitValue_mem_of_draw (p := p) ⟨blueprint.seed, work.teamId, work.runId⟩
    (.first (.visit work.id ordinal) .STATUS_TOUCH)
  rw [newSampledVisit_iff h.valid h.current h.team, ← h.touchFits_iff hu hsample]
  obtain ⟨activity, hactivity, htext⟩ := h.activity
  constructor
  · rintro ⟨-, -, -, entry', hentry', hcell', hfits⟩
    -- the cells of a blueprint are distinct, so the draw is about this entry
    have hfirst := (blueprint.timing_lookups h.listed h.cell).1
    rw [(blueprint.timing_lookups hentry' hcell').1] at hfirst
    cases hfirst
    exact hfits
  · intro hfits
    exact {
      safe := h.safe
      status := h.status
      activity := fun activity' hsome => by
        rw [hactivity, Option.some.injEq] at hsome
        exact hsome ▸ htext
      touch := ⟨entry, h.listed, h.cell, hfits⟩ }

end VisitDue

/-- For touch hours that the sampler accepts, the amount of a new visit is the exact conversion that
the sample requires, and the one of the bootstrap, for hours that convert alike; a due visit is
created for these hours only. -/
theorem touch_conversions_agree {blueprint : ResolvedTeamBlueprint} {entry : TimingEntry}
    (hentry : entry ∈ blueprint.timing.entries) {bounds : TouchBounds}
    (hbounds : touchBounds entry = .ok bounds) {draw hours : ℚ}
    (hsample : sampleTouch bounds draw = .ok hours) :
    (hoursToMicroseconds hours = .ok (hoursToRoundedMicroseconds hours) ↔ ConvertsAlike hours) ∧
    (∀ (work : WorkItemState) (statusKey : String) (touch : UniformDraw),
      entry.cell = (statusKey, work.issueType, work.storyPoints) → touch.unitValue = draw →
      (sampledTouchMicroseconds blueprint work statusKey touch =
        sampledMicroseconds blueprint work statusKey draw ↔
          Rounding.RoundsOnce 53 (exactMicroseconds hours))) ∧
    ∀ (p : Platform) (work : WorkItemState) (step : WorkflowRouteStep) (ordinal : ℕ)
      (enteredAt : ℤ), VisitDue blueprint work step ordinal entry →
      (touchDrawOf p blueprint work ordinal).unitValue = draw →
      ((∃ visit sample, newSampledVisit p blueprint work step ordinal enteredAt
        (seededDraws p blueprint work) = .ok (visit, sample)) ↔ ConvertsAlike hours) := by
  obtain ⟨hvalid, hbounds'⟩ := blueprint.touchBounds_valid hentry
  rw [hbounds'] at hbounds
  cases hbounds
  have hhours : 0 ≤ hours := by
    have hsample' := hsample
    simp only [sampleTouch, validateSampledHours, requireNonNegative, bind_eq_ok, exists_unit,
      require_eq_ok, pure_eq_ok] at hsample'
    obtain ⟨-, ⟨hnonneg, -⟩, rfl⟩ := hsample'
    exact hnonneg
  refine ⟨hoursToMicroseconds_eq_rounded_iff hhours, ?_, ?_⟩
  · rintro work statusKey touch hcell rfl
    have hlookup := (blueprint.timing_lookups hentry hcell).1
    have hrounded : sampledTouchMicroseconds blueprint work statusKey touch =
        .ok (hoursToRoundedMicroseconds hours) := by
      simp only [sampledTouchMicroseconds, bind_eq_ok, pure_eq_ok]
      exact ⟨entry, hlookup, _, hbounds', hours, hsample, rfl⟩
    have hexact : sampledMicroseconds blueprint work statusKey touch.unitValue =
        .ok (Rounding.roundHalfEven (exactMicroseconds hours)) := by
      simp only [sampledMicroseconds, bind_eq_ok, pure_eq_ok]
      exact ⟨entry, hlookup, _, hbounds', hours, hsample, rfl⟩
    rw [hrounded, hexact, Except.ok.injEq]
    exact roundedMicroseconds_eq_exact_iff
  · rintro p work step ordinal enteredAt hdue rfl
    exact hdue.created_iff hsample enteredAt

/-! ### Hours that convert differently -/

/-- Half an hour and some seconds, a double whose product with the microseconds of an hour is just
above a half microsecond. -/
def crossingHours : ℚ := 4514752768078681 / 2 ^ 53

/-- The small team with these hours of work in the first review, and four in the second. -/
def crossingDocument : BlueprintDocument :=
  let document := smallDocument [{ rejectionRule with baseProbability := 0 }] 0 0 0
  { document with
    timing := { document.timing with
      entries := [
        dwellTiming "DEV" 0,
        { dwellTiming "CODE_REVIEW" 0 with touchMin := crossingHours, touchMax := crossingHours },
        { dwellTiming "QA" 0 with touchMin := 4, touchMax := 4 }] } }

theorem crossingDocument_accepted : crossingDocument.validate = .ok () := by
  decide +kernel

def crossingBlueprint : ResolvedTeamBlueprint where
  toBlueprintDocument := crossingDocument
  accepted := crossingDocument_accepted

/-- The hours of the second review convert alike, those of the first do not. -/
theorem crossingHours_differ : ConvertsAlike 4 ∧ ¬ ConvertsAlike crossingHours := by
  have hentryQa : { dwellTiming "QA" 0 with touchMin := 4, touchMax := 4 } ∈
      crossingBlueprint.timing.entries := .tail _ (.tail _ (.head _))
  have hboundsQa : touchBounds { dwellTiming "QA" 0 with touchMin := 4, touchMax := 4 } =
      .ok ⟨4, 4⟩ := by decide +kernel
  have hsampleQa : sampleTouch ⟨4, 4⟩ (1 / 2) = .ok 4 := by decide +kernel
  refine ⟨(touch_conversions_agree hentryQa hboundsQa hsampleQa).1.mp (by decide +kernel), ?_⟩
  intro halike
  have hentry : { dwellTiming "CODE_REVIEW" 0 with
      touchMin := crossingHours, touchMax := crossingHours } ∈
        crossingBlueprint.timing.entries := .tail _ (.head _)
  have hbounds : touchBounds { dwellTiming "CODE_REVIEW" 0 with
      touchMin := crossingHours, touchMax := crossingHours } =
        .ok ⟨crossingHours, crossingHours⟩ := by decide +kernel
  have hsample : sampleTouch ⟨crossingHours, crossingHours⟩ (1 / 2) = .ok crossingHours := by
    decide +kernel
  have hequal := (touch_conversions_agree hentry hbounds hsample).1.mpr halike
  exact absurd hequal (by decide +kernel)

/-- The hours are a double that the sampler accepts, the two conversions differ by a microsecond,
and the tick that completes the development of the first item raises when it enters the review. -/
theorem crossingHours_raise :
    Rounding.roundToPrecision 53 crossingHours = crossingHours ∧
    sampleTouch ⟨crossingHours, crossingHours⟩ (1 / 2) = .ok crossingHours ∧
    hoursToRoundedMicroseconds crossingHours = 1804457690 ∧
    hoursToMicroseconds crossingHours = .ok 1804457691 ∧
    ∃ store, runTeam utcPlatform (startAfter crossingBlueprint 0) [] = .ok store ∧
      calculateScrumTick store.state (requestUntil crossingBlueprint 1)
        (teamDraws utcPlatform crossingBlueprint) =
          .error (.valueError "visit required work must equal the retained touch sample") := by
  refine ⟨by decide +kernel, by decide +kernel, by decide +kernel, by decide +kernel, ?_⟩
  obtain ⟨result, h⟩ := exists_of_succeeds (do
    let store ← runTeam utcPlatform (startAfter crossingBlueprint 0) []
    require (errorOf (calculateScrumTick store.state (requestUntil crossingBlueprint 1)
      (teamDraws utcPlatform crossingBlueprint)) =
        some (.valueError "visit required work must equal the retained touch sample")) "")
    (by decide +kernel)
  simp only [bind_eq_ok, require_eq_ok, errorOf_eq_some] at h
  obtain ⟨store, hrun, htick⟩ := h
  exact ⟨store, hrun, htick⟩

end JiraSimulator
