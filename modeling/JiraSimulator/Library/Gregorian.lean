import Mathlib.Order.Monotone.Basic
import Mathlib.Algebra.Order.SuccPred
import Mathlib.Data.Int.SuccPred
import Mathlib.Data.Int.ConditionallyCompleteOrder
import Mathlib.Tactic.Linarith

/-!
# The Gregorian calendar

Days are integers, counted from 1 January 1970; years and their months are those of the proleptic
Gregorian calendar.

* `newYearsDay_succ`: a year has 365 days, or 366.
* `yearOf_eq_iff`: the year of a day is the one that it lies in.
* `yearOf_last`: 31 December is in its year.
-/

namespace Library.Gregorian

/-- The first day of a year. -/
def newYearsDay (year : ℤ) : ℤ :=
  (year - 1) * 365 + (year - 1) / 4 - (year - 1) / 100 + (year - 1) / 400 - 719162

def IsLeap (year : ℤ) : Prop :=
  year % 4 = 0 ∧ (year % 100 ≠ 0 ∨ year % 400 = 0)

instance (year : ℤ) : Decidable (IsLeap year) :=
  inferInstanceAs (Decidable (_ ∧ _))

/-- The day that a leap year has more. -/
def leapDay (year : ℤ) : ℤ :=
  if IsLeap year then 1 else 0

/-- The days of a year before the first of a month. -/
def daysBeforeMonth (year : ℤ) (month : ℕ) : ℤ :=
  match month with
  | 1 => 0
  | 2 => 31
  | 3 => 59 + leapDay year
  | 4 => 90 + leapDay year
  | 5 => 120 + leapDay year
  | 6 => 151 + leapDay year
  | 7 => 181 + leapDay year
  | 8 => 212 + leapDay year
  | 9 => 243 + leapDay year
  | 10 => 273 + leapDay year
  | 11 => 304 + leapDay year
  | 12 => 334 + leapDay year
  | _ => 365 + leapDay year

def daysInMonth (year : ℤ) (month : ℕ) : ℤ :=
  daysBeforeMonth year (month + 1) - daysBeforeMonth year month

/-- The day with a date. -/
def dayOf (year : ℤ) (month : ℕ) (day : ℤ) : ℤ :=
  newYearsDay year + daysBeforeMonth year month + day - 1

/-- The year of a day: the cycles of 400, 100, 4 years and one year that are complete. -/
def yearOf (day : ℤ) : ℤ :=
  let n := day + 719162
  let n400 := n / 146097
  let n100 := n % 146097 / 36524
  let n4 := n % 146097 % 36524 / 1461
  let n1 := n % 146097 % 36524 % 1461 / 365
  let year := n400 * 400 + n100 * 100 + n4 * 4 + n1 + 1
  if n1 = 4 ∨ n100 = 4 then year - 1 else year

theorem leapDay_nonneg (year : ℤ) : 0 ≤ leapDay year := by
  unfold leapDay
  split_ifs <;> omega

theorem leapDay_le (year : ℤ) : leapDay year ≤ 1 := by
  unfold leapDay
  split_ifs <;> omega

theorem newYearsDay_succ (year : ℤ) :
    newYearsDay (year + 1) = newYearsDay year + 365 + leapDay year := by
  unfold newYearsDay leapDay IsLeap
  split_ifs with hleap
  · omega
  · omega

theorem newYearsDay_strictMono : StrictMono newYearsDay :=
  strictMono_of_lt_succ fun year _ => by
    have hstep := newYearsDay_succ year
    have hleap := leapDay_nonneg year
    rw [Order.succ_eq_add_one]
    omega

/-! ### The year of a day -/

/-- The first day of a year, counted in cycles of 400, 100, 4 years and one year. -/
theorem newYearsDay_cycles {a b c d : ℤ} (hb : 0 ≤ b ∧ b < 4) (hc : 0 ≤ c ∧ c < 25)
    (hd : 0 ≤ d ∧ d < 4) : newYearsDay (400 * a + 100 * b + 4 * c + d + 1) =
      146097 * a + 36524 * b + 1461 * c + 365 * d - 719162 := by
  have hyear : 400 * a + 100 * b + 4 * c + d + 1 - 1 = 400 * a + 100 * b + 4 * c + d := by omega
  have h4 : (400 * a + 100 * b + 4 * c + d) / 4 = 100 * a + 25 * b + c := by omega
  have h100 : (400 * a + 100 * b + 4 * c + d) / 100 = 4 * a + b := by omega
  have h400 : (400 * a + 100 * b + 4 * c + d) / 400 = a := by omega
  rw [newYearsDay, hyear, h4, h100, h400]
  omega

/-- A day before the end of all its cycles lies before the next year. -/
theorem lt_newYearsDay_cycles {a b c d n : ℤ} (hb : 0 ≤ b ∧ b < 4) (hc : 0 ≤ c ∧ c < 25)
    (hd : 0 ≤ d ∧ d < 4) (h400 : n < 146097 * (a + 1))
    (h100 : b < 3 → n < 146097 * a + 36524 * (b + 1))
    (h4 : c < 24 → n < 146097 * a + 36524 * b + 1461 * (c + 1))
    (h1 : d < 3 → n < 146097 * a + 36524 * b + 1461 * c + 365 * (d + 1)) :
    n - 719162 < newYearsDay (400 * a + 100 * b + 4 * c + d + 1 + 1) := by
  by_cases hd3 : d < 3
  · have hnext := newYearsDay_cycles (a := a) hb hc (show 0 ≤ d + 1 ∧ d + 1 < 4 by omega)
    rw [show 400 * a + 100 * b + 4 * c + d + 1 + 1 = 400 * a + 100 * b + 4 * c + (d + 1) + 1 by
      omega, hnext]
    have hlt := h1 hd3
    omega
  obtain rfl : d = 3 := by omega
  have hzero : (0 : ℤ) ≤ 0 ∧ (0 : ℤ) < 4 := by omega
  by_cases hc24 : c < 24
  · have hnext := newYearsDay_cycles (a := a) hb (show 0 ≤ c + 1 ∧ c + 1 < 25 by omega) hzero
    rw [show 400 * a + 100 * b + 4 * c + 3 + 1 + 1 = 400 * a + 100 * b + 4 * (c + 1) + 0 + 1 by
      omega, hnext]
    have hlt := h4 hc24
    omega
  obtain rfl : c = 24 := by omega
  have hzero' : (0 : ℤ) ≤ 0 ∧ (0 : ℤ) < 25 := by omega
  by_cases hb3 : b < 3
  · have hnext := newYearsDay_cycles (a := a) (show 0 ≤ b + 1 ∧ b + 1 < 4 by omega) hzero' hzero
    rw [show 400 * a + 100 * b + 4 * 24 + 3 + 1 + 1 = 400 * a + 100 * (b + 1) + 4 * 0 + 0 + 1 by
      omega, hnext]
    have hlt := h100 hb3
    omega
  obtain rfl : b = 3 := by omega
  have hnext := newYearsDay_cycles (a := a + 1) hzero hzero' hzero
  rw [show 400 * a + 100 * 3 + 4 * 24 + 3 + 1 + 1 = 400 * (a + 1) + 100 * 0 + 4 * 0 + 0 + 1 by
    omega, hnext]
  omega

/-- A day lies in its year. -/
theorem yearOf_mem (day : ℤ) :
    newYearsDay (yearOf day) ≤ day ∧ day < newYearsDay (yearOf day + 1) := by
  -- the last day of 400 years or of four years would begin one cycle too many
  suffices h : ∃ a b c d : ℤ, yearOf day = 400 * a + 100 * b + 4 * c + d + 1 ∧
      (0 ≤ b ∧ b < 4) ∧ (0 ≤ c ∧ c < 25) ∧ (0 ≤ d ∧ d < 4) ∧
      146097 * a + 36524 * b + 1461 * c + 365 * d ≤ day + 719162 ∧
      day + 719162 < 146097 * (a + 1) ∧
      (b < 3 → day + 719162 < 146097 * a + 36524 * (b + 1)) ∧
      (c < 24 → day + 719162 < 146097 * a + 36524 * b + 1461 * (c + 1)) ∧
      (d < 3 → day + 719162 < 146097 * a + 36524 * b + 1461 * c + 365 * (d + 1)) by
    obtain ⟨a, b, c, d, hyear, hb, hc, hd, hle, h400, h100, h4, h1⟩ := h
    have hlt := lt_newYearsDay_cycles hb hc hd h400 h100 h4 h1
    rw [hyear]
    refine ⟨?_, by omega⟩
    rw [newYearsDay_cycles hb hc hd]
    omega
  generalize hn : day + 719162 = n
  have hyear : yearOf day =
      if n % 146097 % 36524 % 1461 / 365 = 4 ∨ n % 146097 / 36524 = 4 then
        n / 146097 * 400 + n % 146097 / 36524 * 100 + n % 146097 % 36524 / 1461 * 4 +
          n % 146097 % 36524 % 1461 / 365
      else
        n / 146097 * 400 + n % 146097 / 36524 * 100 + n % 146097 % 36524 / 1461 * 4 +
          n % 146097 % 36524 % 1461 / 365 + 1 := by
    unfold yearOf
    rw [hn]
    dsimp only
    split_ifs <;> omega
  rw [hyear]
  by_cases hcentury : n % 146097 / 36524 = 4
  · refine ⟨n / 146097, 3, 24, 3, ?_⟩
    rw [if_pos (.inr hcentury)]
    omega
  by_cases hfourth : n % 146097 % 36524 % 1461 / 365 = 4
  · refine ⟨n / 146097, n % 146097 / 36524, n % 146097 % 36524 / 1461, 3, ?_⟩
    rw [if_pos (.inl hfourth)]
    omega
  · refine ⟨n / 146097, n % 146097 / 36524, n % 146097 % 36524 / 1461,
      n % 146097 % 36524 % 1461 / 365, ?_⟩
    rw [if_neg (by omega)]
    omega

theorem yearOf_eq_iff {day year : ℤ} :
    yearOf day = year ↔ newYearsDay year ≤ day ∧ day < newYearsDay (year + 1) := by
  obtain ⟨hlow, hhigh⟩ := yearOf_mem day
  constructor
  · rintro rfl
    exact ⟨hlow, hhigh⟩
  · rintro ⟨hlow', hhigh'⟩
    have hle : yearOf day < year + 1 := newYearsDay_strictMono.lt_iff_lt.mp (hlow.trans_lt hhigh')
    have hge : year < yearOf day + 1 := newYearsDay_strictMono.lt_iff_lt.mp (hlow'.trans_lt hhigh)
    omega

theorem yearOf_newYearsDay (year : ℤ) : yearOf (newYearsDay year) = year :=
  yearOf_eq_iff.mpr ⟨le_rfl, newYearsDay_strictMono (by omega)⟩

/-- The last day of a year. -/
theorem dayOf_last (year : ℤ) : dayOf year 12 31 = newYearsDay (year + 1) - 1 := by
  rw [newYearsDay_succ]
  show newYearsDay year + (334 + leapDay year) + 31 - 1 = _
  omega

theorem yearOf_last (year : ℤ) : yearOf (dayOf year 12 31) = year := by
  have hlt := newYearsDay_strictMono (show year < year + 1 by omega)
  rw [dayOf_last, yearOf_eq_iff]
  omega

theorem dayOf_first (year : ℤ) : dayOf year 1 1 = newYearsDay year := by
  show newYearsDay year + 0 + 1 - 1 = _
  omega

end Library.Gregorian
