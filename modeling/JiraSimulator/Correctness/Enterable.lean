import JiraSimulator.Correctness.Blueprint
import JiraSimulator.Correctness.NewVisits

/-!
# When a visit can be entered

Entering a visit draws its durations from the timing cell of its step and checks the sample against
its formula.  For an item of a sampled team this fails in a few cases only: the ordinals of the item
are used up, a text of the step is not canonical, or the touch time does not fit its cell or a row.
`Enterable` names them, and `newSampledVisit_iff` shows that there are no others.
-/

namespace JiraSimulator

open Library Library.Outcome

variable {p : Platform}

/-! ### Seeded draws -/

/-- The draws of the stream of an item's team run. -/
def seededDraws (p : Platform) (blueprint : ResolvedTeamBlueprint) (work : WorkItemState) :
    DrawSource :=
  (DeterministicRandomStream.mk blueprint.seed work.teamId work.runId).draw p

theorem u53_le_of_draw (stream : DeterministicRandomStream) (decision : DecisionOccurrence) :
    (stream.draw p decision).u53Integer ≤ maxSafeInteger := by
  show p.hmacFirstWord stream decision 0 % 2 ^ 64 / 2 ^ 11 ≤ 2 ^ 53 - 1
  omega

theorem unitValue_mem_of_draw (stream : DeterministicRandomStream) (decision : DecisionOccurrence) :
    0 ≤ (stream.draw p decision).unitValue ∧ (stream.draw p decision).unitValue ≤ 1 := by
  have hle : ((stream.draw p decision).u53Integer : ℚ) ≤ 2 ^ 53 := by
    have h := u53_le_of_draw (p := p) stream decision
    have h' : (stream.draw p decision).u53Integer ≤ 2 ^ 53 := h.trans (by decide)
    exact_mod_cast h'
  unfold UniformDraw.unitValue
  refine ⟨by positivity, ?_⟩
  rw [div_le_one (by positivity)]
  exact hle

/-! ### Samples that succeed -/

/-- A dwell time is clamped between two anchors, so it is always within the outer ones. -/
theorem sampleDwell_isOk {anchors : DwellAnchors} (hvalid : anchors.validate = .ok ()) {u : ℚ}
    (hu : 0 ≤ u ∧ u ≤ 1) : ∃ hours, sampleDwell p anchors u = .ok hours := by
  simp only [DwellAnchors.validate, requireNonNegative, bind_eq_ok, exists_unit, require_eq_ok]
    at hvalid
  obtain ⟨hmin, -, -, -, -, h25, h50, h99, hmax⟩ := hvalid
  have hclamp : ∀ lower upper position, anchors.minimum ≤ lower → lower ≤ upper →
      upper ≤ anchors.maximum → anchors.minimum ≤ interpolateLogHours p lower upper position ∧
        interpolateLogHours p lower upper position ≤ anchors.maximum := by
    intro lower upper position hlower hle hupper
    unfold interpolateLogHours
    exact ⟨le_min (hlower.trans hle) (hlower.trans (le_max_left _ _)),
      (min_le_left _ _).trans hupper⟩
  have hbounds : anchors.minimum ≤ dwellHours p anchors u ∧
      dwellHours p anchors u ≤ anchors.maximum := by
    unfold dwellHours
    split_ifs
    · exact ⟨le_rfl, h25.trans (h50.trans (h99.trans hmax))⟩
    · exact ⟨h25, h50.trans (h99.trans hmax)⟩
    · exact ⟨h25.trans h50, h99.trans hmax⟩
    · exact ⟨h25.trans (h50.trans h99), hmax⟩
    · exact ⟨h25.trans (h50.trans (h99.trans hmax)), le_rfl⟩
    · exact hclamp _ _ _ le_rfl h25 (h50.trans (h99.trans hmax))
    · exact hclamp _ _ _ h25 h50 (h99.trans hmax)
    · exact hclamp _ _ _ (h25.trans h50) h99 hmax
    · exact hclamp _ _ _ (h25.trans (h50.trans h99)) hmax le_rfl
  refine ⟨dwellHours p anchors u, ?_⟩
  simp only [sampleDwell, unitDraw, validateSampledHours, requireNonNegative, bind_eq_ok,
    exists_unit, require_eq_ok, pure_eq_ok]
  exact ⟨hu, ⟨hmin.trans hbounds.1, hbounds⟩, trivial⟩

theorem sampleTouch_eq_ok {bounds : TouchBounds} (hvalid : bounds.validate = .ok ()) {u : ℚ}
    (hu : 0 ≤ u ∧ u ≤ 1) {hours : ℚ} : sampleTouch bounds u = .ok hours ↔
      (bounds.minimum ≤ hours ∧ hours ≤ bounds.maximum) ∧ touchHours bounds u = hours := by
  simp only [TouchBounds.validate, requireNonNegative, bind_eq_ok, exists_unit, require_eq_ok]
    at hvalid
  simp only [sampleTouch, unitDraw, validateSampledHours, requireNonNegative, bind_eq_ok,
    exists_unit, require_eq_ok, pure_eq_ok]
  constructor
  · rintro ⟨-, ⟨-, hbounds⟩, rfl⟩
    exact ⟨hbounds, rfl⟩
  · rintro ⟨hbounds, rfl⟩
    exact ⟨hu, ⟨hvalid.1.trans hbounds.1, hbounds⟩, rfl⟩

/-! ### Timing cells -/

section cells

variable {blueprint : ResolvedTeamBlueprint} {entry : TimingEntry}

theorem ResolvedTeamBlueprint.dwellAnchors_valid (hentry : entry ∈ blueprint.timing.entries) :
    ∃ anchors, dwellAnchors entry = .ok anchors ∧ anchors.validate = .ok () := by
  have hvalid := blueprint.accepted_parts.2.1 entry hentry
  simp only [TimingEntry.validate, bind_eq_ok, exists_unit, requireField_eq_ok, require_eq_ok]
    at hvalid
  obtain ⟨-, ⟨hmin, h25, h50, h99, hmax, -⟩, hordered, -⟩ := hvalid
  have hanchors : DwellAnchors.validate
      { minimum := entry.min, p25 := entry.p25, p50 := entry.p50, p99 := entry.p99,
        maximum := entry.max } = .ok () := by
    simp only [DwellAnchors.validate, requireNonNegative, bind_eq_ok, exists_unit, require_eq_ok]
    exact ⟨hmin, h25, h50, h99, hmax, hordered⟩
  refine ⟨_, ?_, hanchors⟩
  simp only [dwellAnchors, bind_eq_ok, exists_unit, pure_eq_ok]
  exact ⟨hanchors, trivial⟩

/-- The touch bounds of a timing cell. -/
def touchBoundsOf (entry : TimingEntry) : TouchBounds where
  minimum := entry.touchMin
  maximum := entry.touchMax

theorem ResolvedTeamBlueprint.touchBounds_valid (hentry : entry ∈ blueprint.timing.entries) :
    (touchBoundsOf entry).validate = .ok () ∧ touchBounds entry = .ok (touchBoundsOf entry) := by
  have hvalid := blueprint.accepted_parts.2.1 entry hentry
  simp only [TimingEntry.validate, bind_eq_ok, exists_unit, requireField_eq_ok, require_eq_ok]
    at hvalid
  obtain ⟨-, ⟨-, -, -, -, -, hmin, hmax⟩, -, hordered⟩ := hvalid
  have hbounds : (touchBoundsOf entry).validate = .ok () := by
    simp only [TouchBounds.validate, requireNonNegative, bind_eq_ok, exists_unit, require_eq_ok]
    exact ⟨hmin, hmax, hordered⟩
  refine ⟨hbounds, ?_⟩
  simp only [touchBounds, bind_eq_ok, exists_unit, pure_eq_ok]
  exact ⟨hbounds, rfl⟩

/-- Both lookups of a timing cell find the one entry of the cell. -/
theorem ResolvedTeamBlueprint.timing_lookups (hentry : entry ∈ blueprint.timing.entries)
    {work : WorkItemState} {statusKey : String}
    (hcell : entry.cell = (statusKey, work.issueType, work.storyPoints)) :
    timingCell blueprint work statusKey = .ok entry ∧
      ∀ visit : StatusVisitState, visit.statusKey = statusKey →
        timingEntry blueprint work visit = .ok entry := by
  have hfilter := filter_eq_singleton blueprint.timingCells_nodup hentry
  rw [hcell] at hfilter
  constructor
  · rw [timingCell, next_eq_ok, ← List.head?_filter, hfilter, List.head?_cons]
  · rintro visit rfl
    rw [timingEntry, hfilter]

end cells

/-! ### Entering -/

/-- The touch hours that a draw takes from a timing cell. -/
def touchTime (entry : TimingEntry) (draw : UniformDraw) : ℚ :=
  touchHours (touchBoundsOf entry) draw.unitValue

/-- The required work of a visit with these touch hours. -/
def touchWork (entry : TimingEntry) (draw : UniformDraw) : ℤ :=
  hoursToRoundedMicroseconds (touchTime entry draw)

/-- The touch time that a draw takes from a timing cell stays within the cell, the two ways in which
the code rounds it to microseconds agree on a storable value, and it is zero without an activity. -/
structure TouchFits (step : WorkflowRouteStep) (entry : TimingEntry) (draw : UniformDraw) :
    Prop where
  minimum : entry.touchMin ≤ touchTime entry draw
  maximum : touchTime entry draw ≤ entry.touchMax
  rounding : touchWork entry draw =
    Rounding.roundHalfEven (touchTime entry draw * microsecondsPerHour)
  storable : touchWork entry draw ≤ maxSqliteInteger
  zeroTouch : step.requiredActivity = none → touchWork entry draw = 0

/-- What decides whether an item can enter a visit of a step. -/
structure Enterable (p : Platform) (blueprint : ResolvedTeamBlueprint) (work : WorkItemState)
    (step : WorkflowRouteStep) (ordinal : ℕ) : Prop where
  safe : ordinal ≤ maxSafeInteger
  status : isCanonicalText step.statusKey = true
  activity : ∀ activity, step.requiredActivity = some activity → isCanonicalText activity = true
  touch : ∃ entry ∈ blueprint.timing.entries,
    entry.cell = (step.statusKey, work.issueType, work.storyPoints) ∧
    TouchFits step entry
      (seededDraws p blueprint work (.first (.visit work.id ordinal) .STATUS_TOUCH))

/-- The item belongs to the team of the blueprint, whose samples are accepted. -/
structure SampledTeam (blueprint : ResolvedTeamBlueprint) (work : WorkItemState) : Prop where
  team : work.teamId = .team blueprint.sha256
  seed : blueprint.seed ≠ ""
  profileName : isCanonicalText blueprint.timing.profileName = true
  profileVersion : isCanonicalText (toString blueprint.timing.profileVersion) = true
  algorithmVersion : isCanonicalText blueprint.timing.algorithmVersion = true

/-- The sample of an earlier visit shows that the samples of the team are accepted. -/
theorem SampledTeam.of_sample {blueprint : ResolvedTeamBlueprint} {work : WorkItemState}
    {input : StatusVisitSampleInput} {sample : StatusVisitSample}
    (hvalues : statusSampleValues p input = .ok sample) (hvalid : sample.validate p = .ok ())
    (hblueprint : input.blueprint = blueprint) (hteam : input.workItem.teamId = work.teamId) :
    SampledTeam blueprint work := by
  subst hblueprint
  simp only [statusSampleValues, StatusVisitSampleInput.validate, validateSampleInputLinks,
    authenticateDraw, DeterministicRandomStream.create, bind_eq_ok, exists_unit, require_eq_ok,
    pure_eq_ok] at hvalues
  obtain ⟨⟨-, -, ⟨-, -, hteam', -⟩, ⟨_, ⟨hseed, -⟩, -⟩, -⟩, _, -, _, -, _, -, _, -, _, -, _, -, -,
    rfl⟩ := hvalues
  simp only [StatusVisitSample.validate, bind_eq_ok, exists_unit, requireText_eq_ok] at hvalid
  exact ⟨hteam ▸ hteam', hseed, hvalid.1, hvalid.2.1, hvalid.2.2.1⟩

section entering

variable {blueprint : ResolvedTeamBlueprint} {work : WorkItemState} {step : WorkflowRouteStep}
  {entry : TimingEntry} {ordinal : ℕ} {enteredAt : ℤ}

theorem sampledTouch_eq_ok {draw : UniformDraw} (hu : 0 ≤ draw.unitValue ∧ draw.unitValue ≤ 1)
    {statusKey : String} {required : ℤ} :
    sampledTouchMicroseconds blueprint work statusKey draw = .ok required ↔
      ∃ entry ∈ blueprint.timing.entries,
        entry.cell = (statusKey, work.issueType, work.storyPoints) ∧
        entry.touchMin ≤ touchTime entry draw ∧ touchTime entry draw ≤ entry.touchMax ∧
        required = touchWork entry draw := by
  simp only [sampledTouchMicroseconds, bind_eq_ok, pure_eq_ok]
  constructor
  · rintro ⟨entry, hcell, bounds, hbounds, hours, hhours, rfl⟩
    have hentry := mem_of_next hcell
    obtain ⟨hvalid, htouch⟩ := blueprint.touchBounds_valid hentry.1
    rw [htouch, Except.ok.injEq] at hbounds
    subst hbounds
    obtain ⟨hrange, rfl⟩ := (sampleTouch_eq_ok hvalid hu).mp hhours
    exact ⟨entry, hentry.1, by simpa using hentry.2, hrange.1, hrange.2, rfl⟩
  · rintro ⟨entry, hentry, hcell, hmin, hmax, rfl⟩
    obtain ⟨hvalid, htouch⟩ := blueprint.touchBounds_valid hentry
    exact ⟨entry, (blueprint.timing_lookups hentry hcell).1, _, htouch, _,
      (sampleTouch_eq_ok hvalid hu).mpr ⟨⟨hmin, hmax⟩, rfl⟩, rfl⟩

theorem hoursToMicroseconds_eq_ok {hours : ℚ} {required : ℤ} :
    hoursToMicroseconds hours = .ok required ↔ 0 ≤ hours ∧
      (0 ≤ required ∧ required ≤ maxSqliteInteger) ∧
      Rounding.roundHalfEven (hours * microsecondsPerHour) = required := by
  simp only [hoursToMicroseconds, requireNonNegative, bind_eq_ok, exists_unit, require_eq_ok,
    requireMicroseconds_eq_ok, pure_eq_ok]
  constructor
  · rintro ⟨hhours, hrange, rfl⟩
    exact ⟨hhours, hrange, rfl⟩
  · rintro ⟨hhours, hrange, rfl⟩
    exact ⟨hhours, hrange, rfl⟩

/-- An item that enters a visit could enter it. -/
theorem EntersVisit.enterable {visit : StatusVisitState} {sample : StatusVisitSample}
    (h : newSampledVisit p blueprint work step ordinal enteredAt (seededDraws p blueprint work) =
      .ok (visit, sample)) : Enterable p blueprint work step ordinal := by
  have henters := newSampledVisit_eq_ok h
  have hunit := unitValue_mem_of_draw (p := p) ⟨blueprint.seed, work.teamId, work.runId⟩
    (.first (.visit work.id ordinal) .STATUS_TOUCH)
  simp only [newSampledVisit, bind_eq_ok, exists_unit, visitRngId_eq_ok, validated_eq_ok,
    StatusVisitState.validate_eq_ok, pure_eq_ok, Prod.mk.injEq] at h
  obtain ⟨id, ⟨hsafe, rfl⟩, required, hrequired, visit', ⟨hvalid, rfl⟩, -, sample', -, rfl, rfl⟩ := h
  obtain ⟨entry, hentry, hcell, hmin, hmax, rfl⟩ := (sampledTouch_eq_ok hunit).mp hrequired
  have hvalues := henters.values
  simp only [statusSampleValues, bind_eq_ok, exists_unit, require_eq_ok] at hvalues
  obtain ⟨-, entry', hentry', _, -, _, -, bounds, hbounds, hours, hhours, required,
    hmicroseconds, heq, -⟩ := hvalues
  obtain rfl : entry = entry' :=
    Except.ok.inj (((blueprint.timing_lookups hentry hcell).2 _ rfl).symm.trans hentry')
  obtain ⟨hbounds', htouch⟩ := blueprint.touchBounds_valid hentry
  rw [htouch, Except.ok.injEq] at hbounds
  subst hbounds
  obtain ⟨-, rfl⟩ := (sampleTouch_eq_ok hbounds' hunit).mp hhours
  obtain ⟨-, hrange, hrounded⟩ := hoursToMicroseconds_eq_ok.mp hmicroseconds
  exact {
    safe := hsafe
    status := hvalid.status
    activity := hvalid.activity
    touch := ⟨entry, hentry, hcell, {
      minimum := hmin
      maximum := hmax
      rounding := heq.trans hrounded.symm
      storable := hvalid.required.2
      zeroTouch := fun hnone => (hvalid.zeroTouch hnone).2.1 }⟩ }

/-- The row of a visit that an item enters is valid. -/
theorem Enterable.visit_valid (h : Enterable p blueprint work step ordinal) (enteredAt : ℤ)
    {required : ℤ}
    (hrequired : 0 ≤ required ∧ required ≤ maxSqliteInteger)
    (hzero : step.requiredActivity = none → required = 0) :
    (enteredVisit (.visit work.id ordinal) work ordinal step none enteredAt required).Valid where
  ordinal := h.safe
  id := rfl
  status := h.status
  activity := h.activity
  zeroTouch hnone := ⟨rfl, hzero hnone, rfl, hzero hnone, rfl⟩
  openTimes _ := rfl
  closedTimes hclosed := by cases hclosed
  orderedTimes := rfl
  required := hrequired
  elapsed := ⟨le_rfl, Int.natCast_nonneg _⟩
  remaining := hrequired
  queue := ⟨le_rfl, Int.natCast_nonneg _⟩
  pause := ⟨le_rfl, Int.natCast_nonneg _⟩
  credited := ⟨le_rfl, Int.natCast_nonneg _⟩
  balance := (zero_add required).symm
  closedWork hclosed := by cases hclosed

theorem isOk_authenticateDraw {input : StatusVisitSampleInput} (hseed : input.blueprint.seed ≠ "")
    {decisionType : DecisionType} :
    authenticateDraw p input
      (seededDraws p input.blueprint input.workItem (.first input.visit.id decisionType))
      decisionType = .ok () := by
  simp only [authenticateDraw, DeterministicRandomStream.create, bind_eq_ok, exists_unit,
    require_eq_ok, pure_eq_ok]
  exact ⟨_, ⟨hseed, rfl⟩, rfl⟩

/-- The values of an authenticated input form a valid sample. -/
theorem statusSample_valid {input : StatusVisitSampleInput} {sample : StatusVisitSample}
    (hteam : SampledTeam input.blueprint input.workItem)
    (h : statusSampleValues p input = .ok sample) : sample.validate p = .ok () := by
  simp only [statusSampleValues, StatusVisitSampleInput.validate, authenticateDraw,
    DeterministicRandomStream.create, bind_eq_ok, exists_unit, require_eq_ok, pure_eq_ok] at h
  obtain ⟨⟨-, -, -, ⟨stream, ⟨-, rfl⟩, hdwellDraw⟩, ⟨stream, ⟨-, rfl⟩, htouchDraw⟩⟩, entry, -,
    anchors, hanchors, dwell, hdwell, bounds, hbounds, touch, htouch, required, hrequired, heq,
    rfl⟩ := h
  simp only [dwellAnchors, bind_eq_ok, exists_unit, pure_eq_ok] at hanchors
  obtain ⟨hanchors, rfl⟩ := hanchors
  simp only [touchBounds, bind_eq_ok, exists_unit, pure_eq_ok] at hbounds
  obtain ⟨hbounds, rfl⟩ := hbounds
  have hrange := (hoursToMicroseconds_eq_ok.mp hrequired).2.1
  have htext : isCanonicalText touchSamplerVersion = true := by decide
  -- the draws are those of their streams, so their integers and values are in range
  have hdwellSafe : input.dwellDraw.u53Integer ≤ maxSafeInteger :=
    hdwellDraw ▸ u53_le_of_draw _ _
  have htouchSafe : input.touchDraw.u53Integer ≤ maxSafeInteger :=
    htouchDraw ▸ u53_le_of_draw _ _
  have hdwellUnit : 0 ≤ input.dwellDraw.unitValue ∧ input.dwellDraw.unitValue ≤ 1 :=
    hdwellDraw ▸ unitValue_mem_of_draw _ _
  have htouchUnit : 0 ≤ input.touchDraw.unitValue ∧ input.touchDraw.unitValue ≤ 1 :=
    htouchDraw ▸ unitValue_mem_of_draw _ _
  have hdwellDecision : input.dwellDraw.decision = .first input.visit.id .STATUS_DWELL ∧
      input.dwellDraw.stream.teamId = input.workItem.teamId ∧
      input.dwellDraw.stream.runId = input.workItem.runId := by
    rw [hdwellDraw]
    exact ⟨rfl, rfl, rfl⟩
  have htouchDecision : input.touchDraw.decision = .first input.visit.id .STATUS_TOUCH ∧
      input.touchDraw.stream.teamId = input.workItem.teamId ∧
      input.touchDraw.stream.runId = input.workItem.runId := by
    rw [htouchDraw]
    exact ⟨rfl, rfl, rfl⟩
  simp only [StatusVisitSample.validate, StatusVisitSample.validateSamples,
    StatusVisitSample.validateRequiredWork, validateDrawCoordinate, bind_eq_ok, exists_unit,
    requireText_eq_ok, requireSafeInteger_eq_ok, requireFraction_eq_ok, requireMicroseconds_eq_ok,
    require_eq_ok, hdwellDecision, htouchDecision, hdwell, htouch, hbounds, hanchors, hrequired,
    Except.ok.injEq]
  exact ⟨hteam.profileName, hteam.profileVersion, hteam.algorithmVersion, htext,
    ⟨⟨hdwellSafe, rfl, ⟨rfl, rfl⟩, trivial, trivial⟩, ⟨htouchSafe, rfl, ⟨rfl, rfl⟩, trivial, trivial⟩,
      hdwellUnit, htouchUnit, trivial, trivial, trivial, dwell, rfl, trivial, touch, rfl, rfl, rfl⟩,
    hrange, required, rfl, rfl⟩

/-- The draw of the touch time of a visit of the item. -/
def touchDrawOf (p : Platform) (blueprint : ResolvedTeamBlueprint) (work : WorkItemState)
    (ordinal : ℕ) : UniformDraw :=
  seededDraws p blueprint work (.first (.visit work.id ordinal) .STATUS_TOUCH)

theorem TouchFits.nonneg {draw : UniformDraw} (h : TouchFits step entry draw)
    (hentry : entry ∈ blueprint.timing.entries) :
    0 ≤ touchTime entry draw ∧ 0 ≤ touchWork entry draw := by
  have hbounds := (blueprint.touchBounds_valid hentry).1
  simp only [TouchBounds.validate, requireNonNegative, bind_eq_ok, exists_unit, require_eq_ok]
    at hbounds
  have hhours : 0 ≤ touchTime entry draw := hbounds.1.trans h.minimum
  refine ⟨hhours, ?_⟩
  rw [h.rounding]
  exact Rounding.roundHalfEven_nonneg (mul_nonneg hhours (by decide))

/-- The input of the sample of an entered visit is authentic. -/
theorem sampleInput_valid (hwork : work.Valid) (hstatus : work.currentStatusKey = step.statusKey)
    (hteam : SampledTeam blueprint work) (hentry : entry ∈ blueprint.timing.entries)
    (hcell : entry.cell = (step.statusKey, work.issueType, work.storyPoints)) {required : ℤ}
    {visit : StatusVisitState} (hvalid : visit.Valid)
    (hvisit : visit =
      enteredVisit (.visit work.id ordinal) work ordinal step none enteredAt required) :
    (visitSampleInput blueprint work visit (seededDraws p blueprint work)).validate p = .ok () := by
  subst hvisit
  simp only [StatusVisitSampleInput.validate, validateSampleInputLinks, bind_eq_ok, exists_unit,
    require_eq_ok]
  exact ⟨WorkItemState.validate_eq_ok.mpr hwork, StatusVisitState.validate_eq_ok.mpr hvalid,
    ⟨⟨rfl, rfl, rfl⟩, fun _ => hstatus.symm, hteam.team, entry,
      (blueprint.timing_lookups hentry hcell).2 _ rfl, rfl⟩,
    isOk_authenticateDraw hteam.seed, isOk_authenticateDraw hteam.seed⟩

/-- The sample of an entered visit is determined and valid. -/
theorem exists_sample (hteam : SampledTeam blueprint work)
    (hentry : entry ∈ blueprint.timing.entries)
    (hcell : entry.cell = (step.statusKey, work.issueType, work.storyPoints))
    (hfits : TouchFits step entry (touchDrawOf p blueprint work ordinal))
    {visit : StatusVisitState}
    (hvisit : visit = enteredVisit (.visit work.id ordinal) work ordinal step none enteredAt
      (touchWork entry (touchDrawOf p blueprint work ordinal)))
    (hinput : (visitSampleInput blueprint work visit (seededDraws p blueprint work)).validate p =
      .ok ()) :
    ∃ sample, StatusVisitSample.create p
      (visitSampleInput blueprint work visit (seededDraws p blueprint work)) = .ok sample := by
  obtain ⟨anchors, hanchors, hanchorsValid⟩ := blueprint.dwellAnchors_valid hentry
  obtain ⟨hbounds, htouchBounds⟩ := blueprint.touchBounds_valid hentry
  obtain ⟨dwell, hdwell⟩ := sampleDwell_isOk (p := p) hanchorsValid
    (unitValue_mem_of_draw (p := p) ⟨blueprint.seed, work.teamId, work.runId⟩
      (.first visit.id .STATUS_DWELL))
  have htouch := (sampleTouch_eq_ok hbounds (unitValue_mem_of_draw (p := p)
    ⟨blueprint.seed, work.teamId, work.runId⟩ (.first (.visit work.id ordinal) .STATUS_TOUCH))).mpr
      ⟨⟨hfits.minimum, hfits.maximum⟩, rfl⟩
  have hnonneg := hfits.nonneg hentry
  have hmicroseconds : hoursToMicroseconds (touchTime entry (touchDrawOf p blueprint work ordinal)) =
      .ok (touchWork entry (touchDrawOf p blueprint work ordinal)) :=
    hoursToMicroseconds_eq_ok.mpr ⟨hnonneg.1, ⟨hnonneg.2, hfits.storable⟩, hfits.rounding.symm⟩
  have hlookup := (blueprint.timing_lookups hentry hcell).2 visit (by rw [hvisit]; rfl)
  subst hvisit
  obtain ⟨sample, hvalues⟩ : ∃ sample, statusSampleValues p
      (visitSampleInput blueprint work _ (seededDraws p blueprint work)) = .ok sample := by
    simp only [statusSampleValues, bind_eq_ok, exists_unit, require_eq_ok]
    exact ⟨_, hinput, entry, hlookup, anchors, hanchors, dwell, hdwell, _, htouchBounds, _, htouch,
      _, hmicroseconds, rfl, rfl⟩
  exact ⟨sample, StatusVisitSample.create_eq_ok.mpr ⟨hvalues, statusSample_valid hteam hvalues⟩⟩

theorem Enterable.newSampledVisit_isOk (h : Enterable p blueprint work step ordinal)
    (hwork : work.Valid) (hstatus : work.currentStatusKey = step.statusKey)
    (hteam : SampledTeam blueprint work) :
    ∃ visit sample, newSampledVisit p blueprint work step ordinal enteredAt
      (seededDraws p blueprint work) = .ok (visit, sample) := by
  obtain ⟨entry, hentry, hcell, hfits⟩ := h.touch
  have hunit := unitValue_mem_of_draw (p := p) ⟨blueprint.seed, work.teamId, work.runId⟩
    (.first (.visit work.id ordinal) .STATUS_TOUCH)
  have hrequired : sampledTouchMicroseconds blueprint work step.statusKey
      (touchDrawOf p blueprint work ordinal) =
        .ok (touchWork entry (touchDrawOf p blueprint work ordinal)) :=
    (sampledTouch_eq_ok hunit).mpr ⟨entry, hentry, hcell, hfits.minimum, hfits.maximum, rfl⟩
  have hvalid := h.visit_valid enteredAt ⟨(hfits.nonneg hentry).2, hfits.storable⟩ hfits.zeroTouch
  have hinput := sampleInput_valid (p := p) hwork hstatus hteam hentry hcell hvalid rfl
  obtain ⟨sample, hsample⟩ := exists_sample hteam hentry hcell hfits rfl hinput
  refine ⟨enteredVisit (.visit work.id ordinal) work ordinal step none enteredAt
    (touchWork entry (touchDrawOf p blueprint work ordinal)), sample, ?_⟩
  simp only [newSampledVisit, bind_eq_ok, exists_unit, visitRngId_eq_ok, validated_eq_ok,
    StatusVisitState.validate_eq_ok, pure_eq_ok]
  exact ⟨_, ⟨h.safe, rfl⟩, _, hrequired, _, ⟨hvalid, rfl⟩, hinput, sample, hsample, rfl⟩

/-- A visit can be entered exactly when it is enterable. -/
theorem newSampledVisit_iff (hwork : work.Valid) (hstatus : work.currentStatusKey = step.statusKey)
    (hteam : SampledTeam blueprint work) :
    (∃ visit sample, newSampledVisit p blueprint work step ordinal enteredAt
      (seededDraws p blueprint work) = .ok (visit, sample)) ↔
      Enterable p blueprint work step ordinal := by
  constructor
  · rintro ⟨visit, sample, h⟩
    exact EntersVisit.enterable h
  · exact fun h => h.newSampledVisit_isOk hwork hstatus hteam

end entering

end JiraSimulator
