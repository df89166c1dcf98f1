import Mathlib.Order.Monotone.Union
import JiraSimulator.Domain.SamplingFormula

/-!
# Dwell and touch times as quantile functions

In exact arithmetic a dwell time is a function of its unit draw and of five ordered anchors.  On
each closed probability segment it interpolates between the anchors of the segment
(`dwell_first`, …, `dwell_fourth`), also at the draws where two segments meet.

* `interpolate_monotone`, `interpolate_mono`: one interpolation follows its position and its
  anchors.
* `dwell_monotone`, `dwell_mono`: the dwell time follows the draw and every anchor.
* `image_touch`: the touch time takes every value between its bounds.
* `duration_quantiles`: the laws of both samplers.
-/

namespace JiraSimulator

open Set Arithmetic Library.Outcome

/-! ### One segment -/

/-- The interpolation of the exact sampler. -/
noncomputable def interpolate (lower upper position : ℝ) : ℝ :=
  reals.interpolateLogHours lower upper position

/-- The interpolated logarithm, before it is read back as hours. -/
noncomputable def interpolatedLog (lower upper position : ℝ) : ℝ :=
  Real.log (1 + lower) + (Real.log (1 + upper) - Real.log (1 + lower)) * position

theorem interpolate_eq (lower upper position : ℝ) :
    interpolate lower upper position =
      min upper (max lower (Real.exp (interpolatedLog lower upper position) - 1)) :=
  rfl

section

variable {lower upper : ℝ}

theorem log_one_add_le {a b : ℝ} (ha : 0 ≤ a) (hab : a ≤ b) :
    Real.log (1 + a) ≤ Real.log (1 + b) :=
  Real.log_le_log (by linarith) (by linarith)

theorem exp_log_one_add {a : ℝ} (ha : 0 ≤ a) : Real.exp (Real.log (1 + a)) - 1 = a := by
  rw [Real.exp_log (by linarith)]
  ring

theorem interpolate_zero (hlower : 0 ≤ lower) (horder : lower ≤ upper) :
    interpolate lower upper 0 = lower := by
  have hlog : interpolatedLog lower upper 0 = Real.log (1 + lower) := by
    unfold interpolatedLog
    ring
  rw [interpolate_eq, hlog, exp_log_one_add hlower, max_self, min_eq_right horder]

theorem interpolate_one (hlower : 0 ≤ lower) (horder : lower ≤ upper) :
    interpolate lower upper 1 = upper := by
  have hlog : interpolatedLog lower upper 1 = Real.log (1 + upper) := by
    unfold interpolatedLog
    ring
  rw [interpolate_eq, hlog, exp_log_one_add (hlower.trans horder), max_eq_right horder, min_self]

theorem interpolate_monotone (hlower : 0 ≤ lower) (horder : lower ≤ upper) :
    Monotone (interpolate lower upper) := by
  intro s t hst
  have hslope : 0 ≤ Real.log (1 + upper) - Real.log (1 + lower) :=
    sub_nonneg.mpr (log_one_add_le hlower horder)
  have hlog : interpolatedLog lower upper s ≤ interpolatedLog lower upper t :=
    add_le_add_right (mul_le_mul_of_nonneg_left hst hslope) _
  rw [interpolate_eq, interpolate_eq]
  exact min_le_min_left _ (max_le_max_left _ (sub_le_sub_right (Real.exp_le_exp.mpr hlog) 1))

/-- Higher anchors interpolate higher: the logarithm is a mean of those of the anchors. -/
theorem interpolate_mono {lower' upper' position : ℝ} (hlower : 0 ≤ lower) (hupper : 0 ≤ upper)
    (hlowers : lower ≤ lower') (huppers : upper ≤ upper') (hzero : 0 ≤ position)
    (hone : position ≤ 1) :
    interpolate lower upper position ≤ interpolate lower' upper' position := by
  have hmean : ∀ a b : ℝ, interpolatedLog a b position =
      Real.log (1 + a) * (1 - position) + Real.log (1 + b) * position := by
    intro a b
    unfold interpolatedLog
    ring
  have hlog : interpolatedLog lower upper position ≤ interpolatedLog lower' upper' position := by
    rw [hmean, hmean]
    have hfirst := mul_le_mul_of_nonneg_right (log_one_add_le hlower hlowers)
      (sub_nonneg.mpr hone)
    have hsecond := mul_le_mul_of_nonneg_right (log_one_add_le hupper huppers) hzero
    exact add_le_add hfirst hsecond
  rw [interpolate_eq, interpolate_eq]
  exact min_le_min huppers (max_le_max hlowers (sub_le_sub_right (Real.exp_le_exp.mpr hlog) 1))

end

/-! ### The segments of a draw -/

/-- Five ordered anchors. -/
structure OrderedAnchors extends Anchors ℝ where
  minimum_nonneg : 0 ≤ minimum
  minimum_le : minimum ≤ p25
  p25_le : p25 ≤ p50
  p50_le : p50 ≤ p99
  p99_le : p99 ≤ maximum

namespace OrderedAnchors

theorem p25_nonneg (anchors : OrderedAnchors) : 0 ≤ anchors.p25 :=
  anchors.minimum_nonneg.trans anchors.minimum_le

theorem p50_nonneg (anchors : OrderedAnchors) : 0 ≤ anchors.p50 :=
  anchors.p25_nonneg.trans anchors.p25_le

theorem p99_nonneg (anchors : OrderedAnchors) : 0 ≤ anchors.p99 :=
  anchors.p50_nonneg.trans anchors.p50_le

theorem maximum_nonneg (anchors : OrderedAnchors) : 0 ≤ anchors.maximum :=
  anchors.p99_nonneg.trans anchors.p99_le

/-- Every anchor of the first is at most that of the second. -/
structure Below (anchors anchors' : OrderedAnchors) : Prop where
  minimum : anchors.minimum ≤ anchors'.minimum
  p25 : anchors.p25 ≤ anchors'.p25
  p50 : anchors.p50 ≤ anchors'.p50
  p99 : anchors.p99 ≤ anchors'.p99
  maximum : anchors.maximum ≤ anchors'.maximum

end OrderedAnchors

/-- The dwell time of a draw in exact arithmetic. -/
noncomputable def dwell (anchors : OrderedAnchors) (draw : ℝ) : ℝ :=
  reals.dwellHours anchors.toAnchors draw

theorem reals_literal (value : ℚ) : reals.literal value = (value : ℝ) :=
  rfl

theorem reals_segmentPosition (draw lower upper : ℝ) :
    reals.segmentPosition draw lower upper = (draw - lower) / (upper - lower) :=
  rfl

section

variable (anchors : OrderedAnchors) {draw : ℝ}

/-- The cases of the sampler with its constants read as real numbers. -/
theorem dwell_eq (draw : ℝ) : dwell anchors draw =
    if draw = 0 then anchors.minimum
    else if draw = 1 / 4 then anchors.p25
    else if draw = 1 / 2 then anchors.p50
    else if draw = 99 / 100 then anchors.p99
    else if draw = 1 then anchors.maximum
    else if draw < 1 / 4 then
      interpolate anchors.minimum anchors.p25 ((draw - 0) / (1 / 4 - 0))
    else if draw < 1 / 2 then
      interpolate anchors.p25 anchors.p50 ((draw - 1 / 4) / (1 / 2 - 1 / 4))
    else if draw < 99 / 100 then
      interpolate anchors.p50 anchors.p99 ((draw - 1 / 2) / (99 / 100 - 1 / 2))
    else
      interpolate anchors.p99 anchors.maximum ((draw - 99 / 100) / (1 - 99 / 100)) := by
  unfold dwell Arithmetic.dwellHours interpolate
  simp only [reals_literal, reals_segmentPosition]
  push_cast
  rfl

theorem dwell_zero : dwell anchors 0 = anchors.minimum := by
  rw [dwell_eq, if_pos rfl]

theorem dwell_quarter : dwell anchors (1 / 4) = anchors.p25 := by
  rw [dwell_eq, if_neg (by norm_num), if_pos rfl]

theorem dwell_half : dwell anchors (1 / 2) = anchors.p50 := by
  rw [dwell_eq, if_neg (by norm_num), if_neg (by norm_num), if_pos rfl]

theorem dwell_ninetyNine : dwell anchors (99 / 100) = anchors.p99 := by
  rw [dwell_eq, if_neg (by norm_num), if_neg (by norm_num), if_neg (by norm_num), if_pos rfl]

theorem dwell_one : dwell anchors 1 = anchors.maximum := by
  rw [dwell_eq, if_neg (by norm_num), if_neg (by norm_num), if_neg (by norm_num),
    if_neg (by norm_num), if_pos rfl]

theorem dwell_first (hlow : 0 ≤ draw) (hhigh : draw ≤ 1 / 4) :
    dwell anchors draw = interpolate anchors.minimum anchors.p25 ((draw - 0) / (1 / 4 - 0)) := by
  -- at its two ends the segment meets its anchors
  rcases hlow.eq_or_lt with rfl | hlow
  · rw [dwell_zero, sub_self, zero_div,
      interpolate_zero anchors.minimum_nonneg anchors.minimum_le]
  rcases hhigh.eq_or_lt with rfl | hhigh
  · rw [dwell_quarter, div_self (by norm_num),
      interpolate_one anchors.minimum_nonneg anchors.minimum_le]
  rw [dwell_eq, if_neg (by linarith), if_neg (by linarith), if_neg (by linarith),
    if_neg (by linarith), if_neg (by linarith), if_pos hhigh]

theorem dwell_second (hlow : 1 / 4 ≤ draw) (hhigh : draw ≤ 1 / 2) :
    dwell anchors draw =
      interpolate anchors.p25 anchors.p50 ((draw - 1 / 4) / (1 / 2 - 1 / 4)) := by
  rcases hlow.eq_or_lt with rfl | hlow
  · rw [dwell_quarter, sub_self, zero_div, interpolate_zero anchors.p25_nonneg anchors.p25_le]
  rcases hhigh.eq_or_lt with rfl | hhigh
  · rw [dwell_half, div_self (by norm_num), interpolate_one anchors.p25_nonneg anchors.p25_le]
  rw [dwell_eq, if_neg (by linarith), if_neg (by linarith), if_neg (by linarith),
    if_neg (by linarith), if_neg (by linarith), if_neg (by linarith), if_pos hhigh]

theorem dwell_third (hlow : 1 / 2 ≤ draw) (hhigh : draw ≤ 99 / 100) :
    dwell anchors draw =
      interpolate anchors.p50 anchors.p99 ((draw - 1 / 2) / (99 / 100 - 1 / 2)) := by
  rcases hlow.eq_or_lt with rfl | hlow
  · rw [dwell_half, sub_self, zero_div, interpolate_zero anchors.p50_nonneg anchors.p50_le]
  rcases hhigh.eq_or_lt with rfl | hhigh
  · rw [dwell_ninetyNine, div_self (by norm_num),
      interpolate_one anchors.p50_nonneg anchors.p50_le]
  rw [dwell_eq, if_neg (by linarith), if_neg (by linarith), if_neg (by linarith),
    if_neg (by linarith), if_neg (by linarith), if_neg (by linarith), if_neg (by linarith),
    if_pos hhigh]

theorem dwell_fourth (hlow : 99 / 100 ≤ draw) (hhigh : draw ≤ 1) :
    dwell anchors draw =
      interpolate anchors.p99 anchors.maximum ((draw - 99 / 100) / (1 - 99 / 100)) := by
  rcases hlow.eq_or_lt with rfl | hlow
  · rw [dwell_ninetyNine, sub_self, zero_div,
      interpolate_zero anchors.p99_nonneg anchors.p99_le]
  rcases hhigh.eq_or_lt with rfl | hhigh
  · rw [dwell_one, div_self (by norm_num), interpolate_one anchors.p99_nonneg anchors.p99_le]
  rw [dwell_eq, if_neg (by linarith), if_neg (by linarith), if_neg (by linarith),
    if_neg (by linarith), if_neg (by linarith), if_neg (by linarith), if_neg (by linarith),
    if_neg (by linarith)]

end

/-! ### The laws of a dwell time -/

/-- A function that interpolates on a segment is monotone there. -/
theorem monotoneOn_of_interpolates {f : ℝ → ℝ} {lower upper start finish : ℝ}
    (hlower : 0 ≤ lower) (horder : lower ≤ upper) (hsegment : start < finish)
    (hinterpolates : ∀ draw, start ≤ draw → draw ≤ finish →
      f draw = interpolate lower upper ((draw - start) / (finish - start))) :
    MonotoneOn f (Icc start finish) := by
  intro s hs t ht hst
  rw [hinterpolates s hs.1 hs.2, hinterpolates t ht.1 ht.2]
  have hlength : 0 ≤ finish - start := (sub_pos.mpr hsegment).le
  have hposition : (s - start) / (finish - start) ≤ (t - start) / (finish - start) :=
    div_le_div_of_nonneg_right (sub_le_sub_right hst start) hlength
  exact interpolate_monotone hlower horder hposition

/-- Two segments on which a function is monotone make one. -/
theorem monotoneOn_join {f : ℝ → ℝ} {start finish : ℝ} (middle : ℝ) (hfirst : start ≤ middle)
    (hsecond : middle ≤ finish) (h : MonotoneOn f (Icc start middle))
    (h' : MonotoneOn f (Icc middle finish)) : MonotoneOn f (Icc start finish) := by
  rw [← Icc_union_Icc_eq_Icc hfirst hsecond]
  exact MonotoneOn.union_right h h' (isGreatest_Icc hfirst) (isLeast_Icc hsecond)

theorem dwell_monotone (anchors : OrderedAnchors) : MonotoneOn (dwell anchors) (Icc 0 1) := by
  have hfirst : MonotoneOn (dwell anchors) (Icc 0 (1 / 4)) :=
    monotoneOn_of_interpolates anchors.minimum_nonneg anchors.minimum_le (by norm_num)
      fun _ => dwell_first anchors
  have hsecond : MonotoneOn (dwell anchors) (Icc (1 / 4) (1 / 2)) :=
    monotoneOn_of_interpolates anchors.p25_nonneg anchors.p25_le (by norm_num)
      fun _ => dwell_second anchors
  have hthird : MonotoneOn (dwell anchors) (Icc (1 / 2) (99 / 100)) :=
    monotoneOn_of_interpolates anchors.p50_nonneg anchors.p50_le (by norm_num)
      fun _ => dwell_third anchors
  have hfourth : MonotoneOn (dwell anchors) (Icc (99 / 100) 1) :=
    monotoneOn_of_interpolates anchors.p99_nonneg anchors.p99_le (by norm_num)
      fun _ => dwell_fourth anchors
  apply monotoneOn_join (1 / 4) (by norm_num) (by norm_num) hfirst
  apply monotoneOn_join (1 / 2) (by norm_num) (by norm_num) hsecond
  exact monotoneOn_join (99 / 100) (by norm_num) (by norm_num) hthird hfourth

theorem dwell_mem (anchors : OrderedAnchors) {draw : ℝ} (hdraw : draw ∈ Icc (0 : ℝ) 1) :
    dwell anchors draw ∈ Icc anchors.minimum anchors.maximum := by
  have hzero : (0 : ℝ) ∈ Icc (0 : ℝ) 1 := ⟨le_rfl, zero_le_one⟩
  have hone : (1 : ℝ) ∈ Icc (0 : ℝ) 1 := ⟨zero_le_one, le_rfl⟩
  constructor
  · rw [← dwell_zero anchors]
    exact dwell_monotone anchors hzero hdraw hdraw.1
  · rw [← dwell_one anchors]
    exact dwell_monotone anchors hdraw hone hdraw.2

/-- The position of a draw inside its segment. -/
theorem position_mem {draw start finish : ℝ} (hlow : start ≤ draw) (hhigh : draw ≤ finish)
    (hsegment : start < finish) :
    0 ≤ (draw - start) / (finish - start) ∧ (draw - start) / (finish - start) ≤ 1 := by
  have hlength : 0 < finish - start := sub_pos.mpr hsegment
  constructor
  · exact div_nonneg (sub_nonneg.mpr hlow) hlength.le
  · rw [div_le_one hlength]
    exact sub_le_sub_right hhigh start

theorem dwell_mono {anchors anchors' : OrderedAnchors} (h : anchors.Below anchors') {draw : ℝ}
    (hdraw : draw ∈ Icc (0 : ℝ) 1) : dwell anchors draw ≤ dwell anchors' draw := by
  obtain ⟨hzero, hone⟩ := hdraw
  rcases le_total draw (1 / 4) with hquarter | hquarter
  · obtain ⟨hlow, hhigh⟩ := position_mem hzero hquarter (by norm_num)
    rw [dwell_first anchors hzero hquarter, dwell_first anchors' hzero hquarter]
    exact interpolate_mono anchors.minimum_nonneg anchors.p25_nonneg h.minimum h.p25 hlow hhigh
  rcases le_total draw (1 / 2) with hhalf | hhalf
  · obtain ⟨hlow, hhigh⟩ := position_mem hquarter hhalf (by norm_num)
    rw [dwell_second anchors hquarter hhalf, dwell_second anchors' hquarter hhalf]
    exact interpolate_mono anchors.p25_nonneg anchors.p50_nonneg h.p25 h.p50 hlow hhigh
  rcases le_total draw (99 / 100) with hlate | hlate
  · obtain ⟨hlow, hhigh⟩ := position_mem hhalf hlate (by norm_num)
    rw [dwell_third anchors hhalf hlate, dwell_third anchors' hhalf hlate]
    exact interpolate_mono anchors.p50_nonneg anchors.p99_nonneg h.p50 h.p99 hlow hhigh
  · obtain ⟨hlow, hhigh⟩ := position_mem hlate hone (by norm_num)
    rw [dwell_fourth anchors hlate hone, dwell_fourth anchors' hlate hone]
    exact interpolate_mono anchors.p99_nonneg anchors.maximum_nonneg h.p99 h.maximum hlow hhigh

/-! ### The laws of a touch time -/

/-- Two ordered bounds. -/
structure OrderedBounds extends Bounds ℝ where
  minimum_nonneg : 0 ≤ minimum
  minimum_le : minimum ≤ maximum

/-- The touch time of a draw in exact arithmetic. -/
noncomputable def touch (bounds : OrderedBounds) (draw : ℝ) : ℝ :=
  reals.touchHours bounds.toBounds draw

/-- The three cases of the touch sampler agree: the time is linear in the draw. -/
theorem touch_eq (bounds : OrderedBounds) (draw : ℝ) :
    touch bounds draw = bounds.minimum + (bounds.maximum - bounds.minimum) * draw := by
  unfold touch Arithmetic.touchHours
  simp only [reals_literal]
  push_cast
  split_ifs with hminimum hone
  · rcases hminimum with rfl | hequal
    · ring
    · rw [hequal]
      ring
  · rw [hone]
    ring
  · rfl

theorem touch_monotone (bounds : OrderedBounds) : Monotone (touch bounds) := by
  intro s t hst
  have hlength : 0 ≤ bounds.maximum - bounds.minimum := sub_nonneg.mpr bounds.minimum_le
  rw [touch_eq, touch_eq]
  exact add_le_add_right (mul_le_mul_of_nonneg_left hst hlength) _

theorem touch_mem (bounds : OrderedBounds) {draw : ℝ} (hdraw : draw ∈ Icc (0 : ℝ) 1) :
    touch bounds draw ∈ Icc bounds.minimum bounds.maximum := by
  have hlow := touch_monotone bounds hdraw.1
  have hhigh := touch_monotone bounds hdraw.2
  rw [touch_eq bounds 0, mul_zero, add_zero] at hlow
  rw [touch_eq bounds 1, mul_one, add_sub_cancel] at hhigh
  exact ⟨hlow, hhigh⟩

theorem touch_mono {bounds bounds' : OrderedBounds} (hminimum : bounds.minimum ≤ bounds'.minimum)
    (hmaximum : bounds.maximum ≤ bounds'.maximum) {draw : ℝ} (hdraw : draw ∈ Icc (0 : ℝ) 1) :
    touch bounds draw ≤ touch bounds' draw := by
  have hmean : ∀ b : OrderedBounds,
      touch b draw = b.minimum * (1 - draw) + b.maximum * draw := by
    intro b
    rw [touch_eq]
    ring
  have hfirst := mul_le_mul_of_nonneg_right hminimum (sub_nonneg.mpr hdraw.2)
  have hsecond := mul_le_mul_of_nonneg_right hmaximum hdraw.1
  rw [hmean, hmean]
  exact add_le_add hfirst hsecond

theorem image_touch (bounds : OrderedBounds) :
    touch bounds '' Icc 0 1 = Icc bounds.minimum bounds.maximum := by
  ext hours
  constructor
  · rintro ⟨draw, hdraw, rfl⟩
    exact touch_mem bounds hdraw
  · rintro ⟨hlow, hhigh⟩
    rcases bounds.minimum_le.eq_or_lt with hequal | hlt
    · refine ⟨0, ⟨le_rfl, zero_le_one⟩, ?_⟩
      rw [touch_eq, mul_zero, add_zero]
      linarith
    · refine ⟨(hours - bounds.minimum) / (bounds.maximum - bounds.minimum),
        position_mem hlow hhigh hlt, ?_⟩
      have hne : bounds.maximum - bounds.minimum ≠ 0 := (sub_pos.mpr hlt).ne'
      rw [touch_eq, mul_div_cancel₀ _ hne]
      ring

/-! ### The samplers -/

theorem unitDraw_reals {draw : ℝ} (hdraw : draw ∈ Icc (0 : ℝ) 1) :
    reals.unitDraw draw = .ok () := by
  have hlow : reals.literal 0 ≤ draw := by simpa [reals_literal] using hdraw.1
  have hhigh : draw ≤ reals.literal 1 := by simpa [reals_literal] using hdraw.2
  simp only [Arithmetic.unitDraw, bind_eq_ok, require_eq_ok]
  exact ⟨(), hlow, hhigh⟩

theorem validateSampledHours_reals {minimum maximum hours : ℝ} (hminimum : 0 ≤ minimum)
    (hhours : hours ∈ Icc minimum maximum) :
    reals.validateSampledHours minimum maximum hours = .ok () := by
  have hlow : reals.literal 0 ≤ hours := by
    simpa [reals_literal] using hminimum.trans hhours.1
  simp only [Arithmetic.validateSampledHours, bind_eq_ok, require_eq_ok]
  exact ⟨(), hlow, hhours⟩

theorem sampleDwell_reals (anchors : OrderedAnchors) {draw : ℝ} (hdraw : draw ∈ Icc (0 : ℝ) 1) :
    reals.sampleDwell anchors.toAnchors draw = .ok (dwell anchors draw) := by
  have hvalid := validateSampledHours_reals anchors.minimum_nonneg (dwell_mem anchors hdraw)
  simp only [Arithmetic.sampleDwell, unitDraw_reals hdraw, ok_bind]
  rw [show reals.dwellHours anchors.toAnchors draw = dwell anchors draw from rfl, hvalid]
  rfl

theorem sampleTouch_reals (bounds : OrderedBounds) {draw : ℝ} (hdraw : draw ∈ Icc (0 : ℝ) 1) :
    reals.sampleTouch bounds.toBounds draw = .ok (touch bounds draw) := by
  have hvalid := validateSampledHours_reals bounds.minimum_nonneg (touch_mem bounds hdraw)
  simp only [Arithmetic.sampleTouch, unitDraw_reals hdraw, ok_bind]
  rw [show reals.touchHours bounds.toBounds draw = touch bounds draw from rfl, hvalid]
  rfl

/-- In exact arithmetic the samplers succeed on every unit draw.  The dwell time stays within its
anchors, takes them at their probabilities, and follows the draw and every anchor; the touch time
follows the draw and its bounds and takes every value between them. -/
theorem duration_quantiles :
    (∀ (anchors : OrderedAnchors), ∀ draw ∈ Icc (0 : ℝ) 1,
      reals.sampleDwell anchors.toAnchors draw = .ok (dwell anchors draw) ∧
      dwell anchors draw ∈ Icc anchors.minimum anchors.maximum) ∧
    (∀ anchors : OrderedAnchors, MonotoneOn (dwell anchors) (Icc 0 1) ∧
      dwell anchors 0 = anchors.minimum ∧ dwell anchors (1 / 4) = anchors.p25 ∧
      dwell anchors (1 / 2) = anchors.p50 ∧ dwell anchors (99 / 100) = anchors.p99 ∧
      dwell anchors 1 = anchors.maximum) ∧
    (∀ anchors anchors' : OrderedAnchors, anchors.Below anchors' →
      ∀ draw ∈ Icc (0 : ℝ) 1, dwell anchors draw ≤ dwell anchors' draw) ∧
    (∀ (bounds : OrderedBounds), ∀ draw ∈ Icc (0 : ℝ) 1,
      reals.sampleTouch bounds.toBounds draw = .ok (touch bounds draw)) ∧
    (∀ bounds : OrderedBounds, MonotoneOn (touch bounds) (Icc 0 1) ∧
      touch bounds '' Icc 0 1 = Icc bounds.minimum bounds.maximum) ∧
    (∀ bounds bounds' : OrderedBounds, bounds.minimum ≤ bounds'.minimum →
      bounds.maximum ≤ bounds'.maximum →
      ∀ draw ∈ Icc (0 : ℝ) 1, touch bounds draw ≤ touch bounds' draw) := by
  refine ⟨?_, ?_, ?_, ?_, ?_, ?_⟩
  · intro anchors draw hdraw
    exact ⟨sampleDwell_reals anchors hdraw, dwell_mem anchors hdraw⟩
  · intro anchors
    exact ⟨dwell_monotone anchors, dwell_zero anchors, dwell_quarter anchors, dwell_half anchors,
      dwell_ninetyNine anchors, dwell_one anchors⟩
  · intro anchors anchors' h draw hdraw
    exact dwell_mono h hdraw
  · intro bounds draw hdraw
    exact sampleTouch_reals bounds hdraw
  · intro bounds
    exact ⟨(touch_monotone bounds).monotoneOn _, image_touch bounds⟩
  · intro bounds bounds' hminimum hmaximum draw hdraw
    exact touch_mono hminimum hmaximum hdraw

/-! ### Two profiles -/

/-- Up to two days in a status, with a median of half a day. -/
noncomputable def quickAnchors : OrderedAnchors where
  minimum := 0
  p25 := 2
  p50 := 4
  p99 := 14
  maximum := 16
  minimum_nonneg := le_rfl
  minimum_le := by norm_num
  p25_le := by norm_num
  p50_le := by norm_num
  p99_le := by norm_num

/-- Up to a week in a status, with a median of a day. -/
noncomputable def slowAnchors : OrderedAnchors where
  minimum := 0
  p25 := 4
  p50 := 8
  p99 := 32
  maximum := 40
  minimum_nonneg := le_rfl
  minimum_le := by norm_num
  p25_le := by norm_num
  p50_le := by norm_num
  p99_le := by norm_num

/-- One to four hours of work. -/
noncomputable def touchRange : OrderedBounds where
  minimum := 1
  maximum := 4
  minimum_nonneg := zero_le_one
  minimum_le := by norm_num

/-- The draw at a half gives the median, the slower profile is slower at every draw, and two hours
of work are drawn. -/
theorem duration_quantiles_profiles :
    reals.sampleDwell quickAnchors.toAnchors (1 / 2) = .ok 4 ∧
      (∀ draw ∈ Icc (0 : ℝ) 1, dwell quickAnchors draw ≤ dwell slowAnchors draw) ∧
      ∃ draw ∈ Icc (0 : ℝ) 1, reals.sampleTouch touchRange.toBounds draw = .ok 2 := by
  obtain ⟨hdwell, hanchors, hbelow, htouch, hrange, -⟩ := duration_quantiles
  have hhalf : (1 / 2 : ℝ) ∈ Icc (0 : ℝ) 1 := ⟨by norm_num, by norm_num⟩
  obtain ⟨-, -, -, hmedian, -⟩ := hanchors quickAnchors
  refine ⟨?_, hbelow quickAnchors slowAnchors ?_, ?_⟩
  · rw [(hdwell quickAnchors _ hhalf).1, hmedian]
    rfl
  · constructor <;> norm_num [quickAnchors, slowAnchors]
  · have htwo : (2 : ℝ) ∈ touch touchRange '' Icc 0 1 := by
      rw [(hrange touchRange).2]
      constructor <;> norm_num [touchRange]
    obtain ⟨draw, hdraw, hhours⟩ := htwo
    exact ⟨draw, hdraw, hhours ▸ htouch touchRange draw hdraw⟩

end JiraSimulator
