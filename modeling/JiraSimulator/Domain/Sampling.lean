import JiraSimulator.Domain.TeamBlueprint

/-!
# Bounded dwell and touch-work samplers

A dwell time is interpolated in log space between the anchors of its probability segment; a touch
time is uniform between its bounds.  Every sample is checked against its formula.
-/

namespace JiraSimulator

structure DwellAnchors where
  minimum : ℚ
  p25 : ℚ
  p50 : ℚ
  p99 : ℚ
  maximum : ℚ
  deriving DecidableEq, Repr

structure TouchBounds where
  minimum : ℚ
  maximum : ℚ
  deriving DecidableEq, Repr

def requireNonNegative (value : ℚ) (label : String) : Result Unit :=
  require (0 ≤ value) (label ++ " must be non-negative")

def unitDraw (value : ℚ) : Result Unit := do
  requireNonNegative value "unit_draw"
  require (value ≤ 1) "unit_draw must be in [0, 1]"

def DwellAnchors.validate (anchors : DwellAnchors) : Result Unit := do
  requireNonNegative anchors.minimum "minimum"
  requireNonNegative anchors.p25 "p25"
  requireNonNegative anchors.p50 "p50"
  requireNonNegative anchors.p99 "p99"
  requireNonNegative anchors.maximum "maximum"
  require (anchors.minimum ≤ anchors.p25 ∧ anchors.p25 ≤ anchors.p50 ∧ anchors.p50 ≤ anchors.p99 ∧
    anchors.p99 ≤ anchors.maximum) "dwell anchors must be ordered"

def TouchBounds.validate (bounds : TouchBounds) : Result Unit := do
  requireNonNegative bounds.minimum "minimum"
  requireNonNegative bounds.maximum "maximum"
  require (bounds.minimum ≤ bounds.maximum) "touch bounds must be ordered"

def dwellAnchors (entry : TimingEntry) : Result DwellAnchors := do
  let anchors : DwellAnchors :=
    { minimum := entry.min, p25 := entry.p25, p50 := entry.p50, p99 := entry.p99,
      maximum := entry.max }
  anchors.validate
  return anchors

def touchBounds (entry : TimingEntry) : Result TouchBounds := do
  let bounds : TouchBounds := { minimum := entry.touchMin, maximum := entry.touchMax }
  bounds.validate
  return bounds

/-- `0.99`, the double. -/
def ninetyNinePercent : ℚ := toDouble (99 / 100)

def interpolateLogHours (p : Platform) (lower upper position : ℚ) : ℚ :=
  let lowerLog := p.log1p lower
  let interpolated := fadd lowerLog (fmul (fsub (p.log1p upper) lowerLog) position)
  min upper (max lower (p.expm1 interpolated))

/-- The position of a draw inside its probability segment. -/
def segmentPosition (draw lower upper : ℚ) : ℚ :=
  toDouble (fsub draw lower / fsub upper lower)

def dwellHours (p : Platform) (anchors : DwellAnchors) (draw : ℚ) : ℚ :=
  if draw = 0 then anchors.minimum
  else if draw = 1 / 4 then anchors.p25
  else if draw = 1 / 2 then anchors.p50
  else if draw = ninetyNinePercent then anchors.p99
  else if draw = 1 then anchors.maximum
  else if draw < 1 / 4 then
    interpolateLogHours p anchors.minimum anchors.p25 (segmentPosition draw 0 (1 / 4))
  else if draw < 1 / 2 then
    interpolateLogHours p anchors.p25 anchors.p50 (segmentPosition draw (1 / 4) (1 / 2))
  else if draw < ninetyNinePercent then
    interpolateLogHours p anchors.p50 anchors.p99 (segmentPosition draw (1 / 2) ninetyNinePercent)
  else
    interpolateLogHours p anchors.p99 anchors.maximum (segmentPosition draw ninetyNinePercent 1)

def touchHours (bounds : TouchBounds) (draw : ℚ) : ℚ :=
  if draw = 0 ∨ bounds.minimum = bounds.maximum then bounds.minimum
  else if draw = 1 then bounds.maximum
  else fadd bounds.minimum (fmul (fsub bounds.maximum bounds.minimum) draw)

/-- `DurationSample`: hours between the bounds. -/
def validateSampledHours (minimum maximum hours : ℚ) : Result Unit := do
  requireNonNegative hours "sampled_hours"
  require (minimum ≤ hours ∧ hours ≤ maximum)
    "sampled_hours must remain within the supplied parameters"

/-- `sample_dwell(anchors, draw).sampled_hours`. -/
def sampleDwell (p : Platform) (anchors : DwellAnchors) (draw : ℚ) : Result ℚ := do
  unitDraw draw
  let hours := dwellHours p anchors draw
  validateSampledHours anchors.minimum anchors.maximum hours
  return hours

/-- `sample_touch(bounds, draw).sampled_hours`. -/
def sampleTouch (bounds : TouchBounds) (draw : ℚ) : Result ℚ := do
  unitDraw draw
  let hours := touchHours bounds draw
  validateSampledHours bounds.minimum bounds.maximum hours
  return hours

end JiraSimulator
