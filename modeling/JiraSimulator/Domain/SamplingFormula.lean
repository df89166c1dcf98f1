import Mathlib.Analysis.SpecialFunctions.Log.Basic
import JiraSimulator.Domain.Sampling

/-!
# The sampling formulas over any arithmetic

The samplers are written once more with the numbers and their operations as a parameter.  In the
arithmetic of doubles they are the samplers of the code, and in the arithmetic of the real numbers
they are what these samplers round.

* `Arithmetic.doubles_dwellHours`: the dwell times of the code are those of its doubles.
* `Arithmetic.doubles_touchHours`: so are the touch times.
-/

namespace JiraSimulator

/-- Numbers with the operations that the samplers use on them. -/
structure Arithmetic (α : Type) where
  /-- A constant of the source. -/
  literal : ℚ → α
  add : α → α → α
  sub : α → α → α
  mul : α → α → α
  div : α → α → α
  log1p : α → α
  expm1 : α → α

/-- The doubles, whose operations round. -/
def Arithmetic.doubles (p : Platform) : Arithmetic ℚ where
  literal := toDouble
  add := fadd
  sub := fsub
  mul := fmul
  div a b := toDouble (a / b)
  log1p := p.log1p
  expm1 := p.expm1

/-- The real numbers, whose operations are exact. -/
noncomputable def Arithmetic.reals : Arithmetic ℝ where
  literal value := value
  add a b := a + b
  sub a b := a - b
  mul a b := a * b
  div a b := a / b
  log1p value := Real.log (1 + value)
  expm1 value := Real.exp value - 1

/-- The anchors of a dwell time, as numbers of one kind. -/
structure Anchors (α : Type) where
  minimum : α
  p25 : α
  p50 : α
  p99 : α
  maximum : α

/-- The bounds of a touch time, as numbers of one kind. -/
structure Bounds (α : Type) where
  minimum : α
  maximum : α

def DwellAnchors.values (anchors : DwellAnchors) : Anchors ℚ where
  minimum := anchors.minimum
  p25 := anchors.p25
  p50 := anchors.p50
  p99 := anchors.p99
  maximum := anchors.maximum

def TouchBounds.values (bounds : TouchBounds) : Bounds ℚ where
  minimum := bounds.minimum
  maximum := bounds.maximum

namespace Arithmetic

variable {α : Type} [LinearOrder α] (a : Arithmetic α)

def interpolateLogHours (lower upper position : α) : α :=
  let lowerLog := a.log1p lower
  let interpolated := a.add lowerLog (a.mul (a.sub (a.log1p upper) lowerLog) position)
  min upper (max lower (a.expm1 interpolated))

/-- The position of a draw inside its probability segment. -/
def segmentPosition (draw lower upper : α) : α :=
  a.div (a.sub draw lower) (a.sub upper lower)

def dwellHours (anchors : Anchors α) (draw : α) : α :=
  if draw = a.literal 0 then anchors.minimum
  else if draw = a.literal (1 / 4) then anchors.p25
  else if draw = a.literal (1 / 2) then anchors.p50
  else if draw = a.literal (99 / 100) then anchors.p99
  else if draw = a.literal 1 then anchors.maximum
  else if draw < a.literal (1 / 4) then
    a.interpolateLogHours anchors.minimum anchors.p25
      (a.segmentPosition draw (a.literal 0) (a.literal (1 / 4)))
  else if draw < a.literal (1 / 2) then
    a.interpolateLogHours anchors.p25 anchors.p50
      (a.segmentPosition draw (a.literal (1 / 4)) (a.literal (1 / 2)))
  else if draw < a.literal (99 / 100) then
    a.interpolateLogHours anchors.p50 anchors.p99
      (a.segmentPosition draw (a.literal (1 / 2)) (a.literal (99 / 100)))
  else
    a.interpolateLogHours anchors.p99 anchors.maximum
      (a.segmentPosition draw (a.literal (99 / 100)) (a.literal 1))

def touchHours (bounds : Bounds α) (draw : α) : α :=
  if draw = a.literal 0 ∨ bounds.minimum = bounds.maximum then bounds.minimum
  else if draw = a.literal 1 then bounds.maximum
  else a.add bounds.minimum (a.mul (a.sub bounds.maximum bounds.minimum) draw)

/-- `_unit_draw`. -/
def unitDraw (draw : α) : Result Unit := do
  require (a.literal 0 ≤ draw) "unit_draw must be non-negative"
  require (draw ≤ a.literal 1) "unit_draw must be in [0, 1]"

/-- `DurationSample`: hours between the bounds. -/
def validateSampledHours (minimum maximum hours : α) : Result Unit := do
  require (a.literal 0 ≤ hours) "sampled_hours must be non-negative"
  require (minimum ≤ hours ∧ hours ≤ maximum)
    "sampled_hours must remain within the supplied parameters"

def sampleDwell (anchors : Anchors α) (draw : α) : Result α := do
  a.unitDraw draw
  let hours := a.dwellHours anchors draw
  a.validateSampledHours anchors.minimum anchors.maximum hours
  return hours

def sampleTouch (bounds : Bounds α) (draw : α) : Result α := do
  a.unitDraw draw
  let hours := a.touchHours bounds draw
  a.validateSampledHours bounds.minimum bounds.maximum hours
  return hours

/-! ### The doubles -/

variable (p : Platform)

theorem doubles_literals : (doubles p).literal 0 = 0 ∧ (doubles p).literal (1 / 4) = 1 / 4 ∧
    (doubles p).literal (1 / 2) = 1 / 2 ∧ (doubles p).literal 1 = 1 := by
  show toDouble 0 = 0 ∧ toDouble (1 / 4) = 1 / 4 ∧ toDouble (1 / 2) = 1 / 2 ∧ toDouble 1 = 1
  decide +kernel

theorem doubles_dwellHours (anchors : DwellAnchors) (draw : ℚ) :
    (doubles p).dwellHours anchors.values draw = JiraSimulator.dwellHours p anchors draw := by
  obtain ⟨hzero, hquarter, hhalf, hone⟩ := doubles_literals p
  unfold dwellHours JiraSimulator.dwellHours
  rw [hzero, hquarter, hhalf, hone]
  rfl

theorem doubles_touchHours (bounds : TouchBounds) (draw : ℚ) :
    (doubles p).touchHours bounds.values draw = JiraSimulator.touchHours bounds draw := by
  obtain ⟨hzero, -, -, hone⟩ := doubles_literals p
  unfold touchHours JiraSimulator.touchHours
  rw [hzero, hone]
  rfl

theorem doubles_sampleDwell (anchors : DwellAnchors) (draw : ℚ) :
    (doubles p).sampleDwell anchors.values draw = JiraSimulator.sampleDwell p anchors draw := by
  obtain ⟨hzero, -, -, hone⟩ := doubles_literals p
  unfold sampleDwell JiraSimulator.sampleDwell unitDraw validateSampledHours
  rw [doubles_dwellHours, hzero, hone]
  rfl

theorem doubles_sampleTouch (bounds : TouchBounds) (draw : ℚ) :
    (doubles p).sampleTouch bounds.values draw = JiraSimulator.sampleTouch bounds draw := by
  obtain ⟨hzero, -, -, hone⟩ := doubles_literals p
  unfold sampleTouch JiraSimulator.sampleTouch unitDraw validateSampledHours
  rw [doubles_touchHours, hzero, hone]
  rfl

end Arithmetic

end JiraSimulator
