import JiraSimulator.Library.Rounding

/-!
# Doubles that overflow

A double is a rational number, an infinity, or not a number; a zero carries no sign here.  The
operations round to the nearest double, half to even, with gradual underflow, and to an infinity
beyond the largest double.

* `nearest_ne_zero`: a number from one on does not round to zero.
* `one_add_ne_zero`: so one more than a power is not zero.
-/

namespace Library.Binary64

open Rounding

inductive Double where
  | finite (value : ℚ)
  | infinity (negative : Bool)
  | nan
  deriving DecidableEq, Repr

/-- The rational rounded to a significand of 53 bits, or to the grid of the subnormal numbers. -/
def rounded (x : ℚ) : ℚ :=
  if |x| < powTwo (-1022) then roundHalfEven (x / powTwo (-1074)) * powTwo (-1074)
  else roundToPrecision 53 x

/-- The double nearest to a rational. -/
def nearest (x : ℚ) : Double :=
  if powTwo 1024 ≤ |rounded x| then .infinity (x < 0) else .finite (rounded x)

namespace Double

def neg : Double → Double
  | finite value => finite (-value)
  | infinity negative => infinity (!negative)
  | nan => nan

def add : Double → Double → Double
  | finite a, finite b => nearest (a + b)
  | infinity s, infinity t => if s = t then infinity s else nan
  | infinity s, finite _ => infinity s
  | finite _, infinity t => infinity t
  | nan, _ => nan
  | _, nan => nan

def sub (a b : Double) : Double :=
  a.add b.neg

def mul : Double → Double → Double
  | finite a, finite b => nearest (a * b)
  | infinity s, infinity t => infinity (s ≠ t)
  | infinity s, finite b => if b = 0 then nan else infinity (s ≠ decide (b < 0))
  | finite a, infinity t => if a = 0 then nan else infinity (t ≠ decide (a < 0))
  | nan, _ => nan
  | _, nan => nan

/-- The quotient by a double other than zero. -/
def div : Double → Double → Double
  | finite a, finite b => nearest (a / b)
  | infinity _, infinity _ => nan
  | infinity s, finite b => infinity (s ≠ decide (b < 0))
  | finite _, infinity _ => finite 0
  | nan, _ => nan
  | _, nan => nan

/-- `fabs(a) >= fabs(b)`. -/
def absGe : Double → Double → Bool
  | finite a, finite b => |b| ≤ |a|
  | infinity _, finite _ => true
  | infinity _, infinity _ => true
  | finite _, infinity _ => false
  | nan, _ => false
  | _, nan => false

/-- One step of a sum that is compensated by what the rounding lost. -/
def sumStep (state : Double × Double) (x : Double) : Double × Double :=
  let total := state.1.add x
  let lost := if state.1.absGe x then (state.1.sub total).add x else (x.sub total).add state.1
  (total, state.2.add lost)

/-- The built-in `sum` of floats. -/
def sum : List Double → Double
  | [] => finite 0
  | x :: xs =>
    let state := xs.foldl sumStep (x, finite 0)
    match state.2 with
    | finite compensation => if compensation = 0 then state.1 else state.1.add state.2
    | _ => state.1

end Double

/-! ### Rounding away from zero -/

theorem rounded_ne_zero {x : ℚ} (h : 1 ≤ x) : rounded x ≠ 0 := by
  have hlarge : ¬ |x| < powTwo (-1022) := by
    rw [powTwo_eq_zpow, abs_of_nonneg (by linarith), not_lt]
    have hsmall : (2 : ℚ) ^ (-1022 : ℤ) ≤ 2 ^ (0 : ℤ) := zpow_le_zpow_right₀ (by norm_num) (by norm_num)
    rw [zpow_zero] at hsmall
    linarith
  unfold rounded
  rw [if_neg hlarge]
  have hnear := abs_le.mp (abs_roundToPrecision_sub_le (p := 53) (q := x) (by linarith))
  intro hzero
  rw [hzero] at hnear
  have hx : x / 2 ^ 53 < x := by
    rw [div_lt_iff₀ (by positivity)]
    linarith [show (1 : ℚ) < 2 ^ 53 by norm_num, mul_lt_mul_of_pos_left
      (show (1 : ℚ) < 2 ^ 53 by norm_num) (show 0 < x by linarith)]
  linarith [hnear.1]

theorem nearest_ne_zero {x : ℚ} (h : 1 ≤ x) : nearest x ≠ .finite 0 := by
  unfold nearest
  split_ifs
  · exact fun hzero => by cases hzero
  · exact fun hzero => rounded_ne_zero h (Double.finite.inj hzero)

/-- One more than a number that is not negative is not zero. -/
theorem one_add_ne_zero {x : Double} (h : ∀ value, x = .finite value → 0 ≤ value) :
    (Double.finite 1).add x ≠ .finite 0 := by
  cases x with
  | finite value =>
    have := h value rfl
    exact nearest_ne_zero (by linarith)
  | infinity negative => exact fun hzero => by cases hzero
  | nan => exact fun hzero => by cases hzero

end Library.Binary64
