import Mathlib.Algebra.Order.Round
import Mathlib.Data.Rat.Floor
import Mathlib.Data.Nat.Log
import Mathlib.Tactic.Linarith
import Mathlib.Tactic.Positivity
import Mathlib.Tactic.FieldSimp

/-!
# Rounding half to even

`roundHalfEven` rounds a rational to the nearest integer, and a half to the even neighbour.
`roundToPrecision p` rounds to the nearest number with `p` significant bits, half to even, over an
unbounded range of exponents.

* `roundHalfEven_le`, `le_roundHalfEven`: rounding stays on its side of an integer.
* `roundToPrecision_le`, `roundToPrecision_nonneg`: so does rounding to `p` bits, for an integer
  below `2 ^ p`.
* `abs_roundToPrecision_sub_le`: rounding to `p` bits moves a number by at most its `2 ^ p`-th part.
* `roundToPrecision_mono`: it keeps the order of the numbers.
-/

namespace Library.Rounding

/-- The nearest integer, a half to the even one. -/
def roundHalfEven (q : ℚ) : ℤ :=
  let whole := ⌊q⌋
  let remainder := q - whole
  if 1 / 2 < remainder ∨ (remainder = 1 / 2 ∧ whole % 2 = 1) then whole + 1 else whole

/-- The power of two with an integer exponent. -/
def powTwo (e : ℤ) : ℚ :=
  if 0 ≤ e then ((2 ^ e.toNat : ℕ) : ℚ) else 1 / ((2 ^ (-e).toNat : ℕ) : ℚ)

/-- The exponent of the leading bit of a positive rational. -/
def leadingExponent (q : ℚ) : ℤ :=
  let estimate : ℤ := (Nat.log2 q.num.natAbs : ℤ) - (Nat.log2 q.den : ℤ)
  if powTwo estimate ≤ q then estimate else estimate - 1

/-- The nearest number with `p` significant bits, a half to the even one. -/
def roundToPrecision (p : ℕ) (q : ℚ) : ℚ :=
  if q = 0 then 0
  else
    let ulp := powTwo (leadingExponent |q| - p + 1)
    roundHalfEven (q / ulp) * ulp

/-! ### Integers -/

theorem roundHalfEven_le {q : ℚ} {n : ℤ} (h : q ≤ n) : roundHalfEven q ≤ n := by
  unfold roundHalfEven
  have hfloor : ⌊q⌋ ≤ n := Int.floor_le_iff.mpr (by linarith)
  dsimp only
  split_ifs with hup
  · have hlt : (⌊q⌋ : ℚ) < n := by
      have hhalf : (1 : ℚ) / 2 ≤ q - ⌊q⌋ := by
        rcases hup with hup | ⟨hup, -⟩
        exacts [hup.le, hup.ge]
      linarith
    have : ⌊q⌋ < n := by exact_mod_cast hlt
    omega
  · exact hfloor

theorem le_roundHalfEven {q : ℚ} {n : ℤ} (h : (n : ℚ) ≤ q) : n ≤ roundHalfEven q := by
  unfold roundHalfEven
  have hfloor : n ≤ ⌊q⌋ := Int.le_floor.mpr h
  dsimp only
  split_ifs <;> omega

@[simp] theorem roundHalfEven_intCast (n : ℤ) : roundHalfEven n = n :=
  le_antisymm (roundHalfEven_le le_rfl) (le_roundHalfEven le_rfl)

@[simp] theorem roundHalfEven_natCast (n : ℕ) : roundHalfEven n = n := by
  exact_mod_cast roundHalfEven_intCast n

theorem roundHalfEven_nonneg {q : ℚ} (h : 0 ≤ q) : 0 ≤ roundHalfEven q :=
  le_roundHalfEven (by exact_mod_cast h)

/-- Rounding moves a number by at most a half. -/
theorem abs_roundHalfEven_sub_le (q : ℚ) : |(roundHalfEven q : ℚ) - q| ≤ 1 / 2 := by
  unfold roundHalfEven
  have hfloor := Int.floor_le q
  have hlt := Int.lt_floor_add_one q
  dsimp only
  split_ifs with hup
  · have hhalf : (1 : ℚ) / 2 ≤ q - ⌊q⌋ := by
      rcases hup with hup | ⟨hup, -⟩
      exacts [hup.le, hup.ge]
    push_cast
    rw [abs_le]
    constructor <;> linarith
  · have hhalf : q - ⌊q⌋ ≤ (1 : ℚ) / 2 := not_lt.mp fun hup' => hup (.inl hup')
    rw [abs_le]
    constructor <;> linarith

/-- A number rounds to the integer that is nearer than a half. -/
theorem roundHalfEven_eq_of_abs_lt {q : ℚ} {n : ℤ} (h : |q - n| < 1 / 2) :
    roundHalfEven q = n := by
  have hround := abs_le.mp (abs_roundHalfEven_sub_le q)
  have hnear := abs_lt.mp h
  have hlt : ((roundHalfEven q - n : ℤ) : ℚ) < 1 := by
    push_cast
    linarith
  have hgt : (-1 : ℚ) < ((roundHalfEven q - n : ℤ) : ℚ) := by
    push_cast
    linarith
  have hlt' : roundHalfEven q - n < 1 := by exact_mod_cast hlt
  have hgt' : -1 < roundHalfEven q - n := by exact_mod_cast hgt
  omega

theorem roundHalfEven_mono {q r : ℚ} (h : q ≤ r) : roundHalfEven q ≤ roundHalfEven r := by
  by_contra hlt
  have hround := abs_le.mp (abs_roundHalfEven_sub_le q)
  have hround' := abs_le.mp (abs_roundHalfEven_sub_le r)
  have hstep : (roundHalfEven r : ℚ) + 1 ≤ roundHalfEven q := by
    exact_mod_cast not_le.mp hlt
  -- both lie a half from their numbers, so the numbers are equal
  have heq : q = r := by linarith
  rw [heq] at hlt
  exact hlt le_rfl

/-! ### Binary exponents -/

theorem powTwo_eq_zpow (e : ℤ) : powTwo e = (2 : ℚ) ^ e := by
  unfold powTwo
  split_ifs with h
  · obtain ⟨n, rfl⟩ := Int.eq_ofNat_of_zero_le h
    simp
  · obtain ⟨n, hn⟩ := Int.eq_ofNat_of_zero_le (a := -e) (by omega)
    rw [hn, show e = -(n : ℤ) by omega]
    simp

theorem powTwo_pos (e : ℤ) : 0 < powTwo e := by
  rw [powTwo_eq_zpow]
  exact zpow_pos two_pos e

/-- The leading exponent is not too large: the power of two is at most the number. -/
theorem powTwo_leadingExponent_le {q : ℚ} (h : 0 < q) : powTwo (leadingExponent q) ≤ q := by
  unfold leadingExponent
  dsimp only
  split_ifs with hle
  · exact hle
  · set a : ℕ := q.num.natAbs with ha
    have hnum : (q.num : ℚ) = a := by
      have : (q.num : ℤ) = (a : ℤ) := by
        rw [ha, Int.natCast_natAbs, abs_of_pos (Rat.num_pos.mpr h)]
      exact_mod_cast this
    have hpos : a ≠ 0 := Int.natAbs_ne_zero.mpr (Rat.num_pos.mpr h).ne'
    have hnumlog : (2 : ℚ) ^ (Nat.log2 a) ≤ a := by
      exact_mod_cast Nat.log2_self_le hpos
    have hdenlog : (q.den : ℚ) < 2 ^ (Nat.log2 q.den + 1) := by
      exact_mod_cast Nat.lt_log2_self
    have hq : q * q.den = a := by rw [← hnum, Rat.mul_den_eq_num]
    rw [powTwo_eq_zpow, show ((Nat.log2 a : ℤ) - Nat.log2 q.den - 1) =
      (Nat.log2 a : ℤ) - (Nat.log2 q.den + 1 : ℕ) by push_cast; ring, zpow_sub₀ two_ne_zero,
      zpow_natCast, zpow_natCast, div_le_iff₀ (by positivity)]
    calc (2 : ℚ) ^ (Nat.log2 a) ≤ a := hnumlog
      _ = q * q.den := hq.symm
      _ ≤ q * 2 ^ (Nat.log2 q.den + 1) := by
          exact mul_le_mul_of_nonneg_left hdenlog.le h.le

/-- The leading exponent is not too small: the next power of two is above the number. -/
theorem lt_powTwo_leadingExponent {q : ℚ} (h : 0 < q) : q < powTwo (leadingExponent q + 1) := by
  unfold leadingExponent
  dsimp only
  split_ifs with hle
  · set a : ℕ := q.num.natAbs with ha
    have hnum : (q.num : ℚ) = a := by
      have : (q.num : ℤ) = (a : ℤ) := by
        rw [ha, Int.natCast_natAbs, abs_of_pos (Rat.num_pos.mpr h)]
      exact_mod_cast this
    have hnumlog : (a : ℚ) < 2 ^ (Nat.log2 a + 1) := by
      exact_mod_cast Nat.lt_log2_self
    have hdenlog : (2 : ℚ) ^ (Nat.log2 q.den) ≤ q.den := by
      exact_mod_cast Nat.log2_self_le q.den_ne_zero
    have hq : q * q.den = a := by rw [← hnum, Rat.mul_den_eq_num]
    rw [powTwo_eq_zpow, show ((Nat.log2 a : ℤ) - Nat.log2 q.den + 1) =
      (Nat.log2 a + 1 : ℕ) - (Nat.log2 q.den : ℤ) by push_cast; ring, zpow_sub₀ two_ne_zero,
      zpow_natCast, zpow_natCast, lt_div_iff₀ (by positivity)]
    calc q * 2 ^ (Nat.log2 q.den) ≤ q * q.den := mul_le_mul_of_nonneg_left hdenlog h.le
      _ = a := hq
      _ < 2 ^ (Nat.log2 a + 1) := hnumlog
  · rw [sub_add_cancel]
    exact not_le.mp hle

theorem leadingExponent_mono {q r : ℚ} (h : 0 < q) (hle : q ≤ r) :
    leadingExponent q ≤ leadingExponent r := by
  by_contra hlt
  have hbelow := powTwo_leadingExponent_le h
  have habove := lt_powTwo_leadingExponent (h.trans_le hle)
  have hmono : powTwo (leadingExponent r + 1) ≤ powTwo (leadingExponent q) := by
    rw [powTwo_eq_zpow, powTwo_eq_zpow]
    exact zpow_le_zpow_right₀ one_le_two (by omega)
  linarith

/-- A number below `2 ^ p` has an ulp at most one, so its reciprocal is a natural number. -/
theorem exists_ulp_inv {p : ℕ} {q : ℚ} (h : 0 < q) (hlt : q < 2 ^ p) :
    ∃ k : ℕ, powTwo (leadingExponent q - p + 1) * (k : ℚ) = 1 := by
  have hle := powTwo_leadingExponent_le h
  have hexp : leadingExponent q < p := by
    by_contra hge
    have hmono : (2 : ℚ) ^ (p : ℤ) ≤ 2 ^ leadingExponent q :=
      zpow_le_zpow_right₀ one_le_two (not_lt.mp hge)
    rw [zpow_natCast, ← powTwo_eq_zpow] at hmono
    linarith
  obtain ⟨k, hk⟩ := Int.eq_ofNat_of_zero_le (a := (p : ℤ) - 1 - leadingExponent q) (by omega)
  refine ⟨2 ^ k, ?_⟩
  rw [powTwo_eq_zpow, show leadingExponent q - p + 1 = -(k : ℤ) by omega, zpow_neg, zpow_natCast]
  push_cast
  field_simp

theorem roundToPrecision_nonneg {p : ℕ} {q : ℚ} (h : 0 ≤ q) : 0 ≤ roundToPrecision p q := by
  unfold roundToPrecision
  split_ifs
  · exact le_rfl
  · have hulp := powTwo_pos (leadingExponent |q| - p + 1)
    have := roundHalfEven_nonneg (div_nonneg h hulp.le)
    dsimp only
    positivity

/-- Rounding to `p` bits does not pass an integer below `2 ^ p`. -/
theorem roundToPrecision_le {p : ℕ} {q : ℚ} {n : ℕ} (h : 0 ≤ q) (hn : q ≤ n) (hp : n < 2 ^ p) :
    roundToPrecision p q ≤ n := by
  unfold roundToPrecision
  split_ifs with hzero
  · positivity
  · have hpos : 0 < q := lt_of_le_of_ne h (Ne.symm hzero)
    have hlt : q < 2 ^ p := lt_of_le_of_lt hn (by exact_mod_cast hp)
    rw [abs_of_pos hpos]
    obtain ⟨k, hk⟩ := exists_ulp_inv (p := p) hpos hlt
    have hulp := powTwo_pos (leadingExponent q - p + 1)
    set ulp := powTwo (leadingExponent q - p + 1)
    have hquot : q / ulp ≤ ((n * k : ℕ) : ℤ) := by
      rw [div_le_iff₀ hulp]
      push_cast
      calc q ≤ n := hn
        _ = n * k * ulp := by rw [mul_assoc, mul_comm (k : ℚ), hk, mul_one]
    have hround : (roundHalfEven (q / ulp) : ℚ) ≤ ((n * k : ℕ) : ℤ) := by
      exact_mod_cast roundHalfEven_le hquot
    calc (roundHalfEven (q / ulp) : ℚ) * ulp ≤ ((n * k : ℕ) : ℤ) * ulp :=
          mul_le_mul_of_nonneg_right hround hulp.le
      _ = n := by push_cast; rw [mul_assoc, mul_comm (k : ℚ), hk, mul_one]

/-- Rounding to `p` bits moves a number by at most its `2 ^ p`-th part. -/
theorem abs_roundToPrecision_sub_le {p : ℕ} {q : ℚ} (h : 0 ≤ q) :
    |roundToPrecision p q - q| ≤ q / 2 ^ p := by
  unfold roundToPrecision
  split_ifs with hzero
  · rw [hzero]
    simp
  have hpos : 0 < q := lt_of_le_of_ne h (Ne.symm hzero)
  rw [abs_of_pos hpos]
  have hulp := powTwo_pos (leadingExponent q - p + 1)
  have hhalf : powTwo (leadingExponent q - p + 1) / 2 ≤ q / 2 ^ p := by
    have hle := powTwo_leadingExponent_le hpos
    have hsplit : powTwo (leadingExponent q - p + 1) / 2 = powTwo (leadingExponent q) / 2 ^ p := by
      rw [powTwo_eq_zpow, powTwo_eq_zpow, zpow_add₀ two_ne_zero, zpow_sub₀ two_ne_zero,
        zpow_natCast, zpow_one]
      field_simp
    rw [hsplit]
    exact div_le_div_of_nonneg_right hle (by positivity)
  set ulp := powTwo (leadingExponent q - p + 1)
  have hround := abs_roundHalfEven_sub_le (q / ulp)
  have hscaled : (roundHalfEven (q / ulp) : ℚ) * ulp - q =
      ((roundHalfEven (q / ulp) : ℚ) - q / ulp) * ulp := by
    rw [sub_mul, div_mul_cancel₀ _ hulp.ne']
  dsimp only
  rw [hscaled, abs_mul, abs_of_pos hulp]
  calc |(roundHalfEven (q / ulp) : ℚ) - q / ulp| * ulp ≤ 1 / 2 * ulp :=
        mul_le_mul_of_nonneg_right hround hulp.le
    _ = ulp / 2 := by ring
    _ ≤ q / 2 ^ p := hhalf

/-- A binade is rounded into itself, its upper end included. -/
theorem roundToPrecision_binade {p : ℕ} (hp : 0 < p) {q : ℚ} (h : 0 < q) :
    powTwo (leadingExponent q) ≤ roundToPrecision p q ∧
      roundToPrecision p q ≤ powTwo (leadingExponent q + 1) := by
  unfold roundToPrecision
  rw [if_neg h.ne', abs_of_pos h]
  obtain ⟨k, rfl⟩ : ∃ k, p = k + 1 := ⟨p - 1, by omega⟩
  have hulp := powTwo_pos (leadingExponent q - (k + 1 : ℕ) + 1)
  have hlow : powTwo (leadingExponent q) =
      ((2 ^ k : ℕ) : ℤ) * powTwo (leadingExponent q - (k + 1 : ℕ) + 1) := by
    rw [powTwo_eq_zpow, powTwo_eq_zpow, show leadingExponent q =
      (k : ℤ) + (leadingExponent q - (k + 1 : ℕ) + 1) by push_cast; ring, zpow_add₀ two_ne_zero]
    push_cast
    simp
  have hhigh : powTwo (leadingExponent q + 1) =
      ((2 ^ (k + 1) : ℕ) : ℤ) * powTwo (leadingExponent q - (k + 1 : ℕ) + 1) := by
    rw [powTwo_eq_zpow, powTwo_eq_zpow, show leadingExponent q + 1 =
      ((k + 1 : ℕ) : ℤ) + (leadingExponent q - (k + 1 : ℕ) + 1) by ring, zpow_add₀ two_ne_zero,
      zpow_natCast]
    push_cast
    rfl
  have hbelow := powTwo_leadingExponent_le h
  have habove := (lt_powTwo_leadingExponent h).le
  rw [hlow] at hbelow ⊢
  rw [hhigh] at habove ⊢
  dsimp only
  constructor
  · refine mul_le_mul_of_nonneg_right ?_ hulp.le
    exact_mod_cast le_roundHalfEven ((le_div_iff₀ hulp).mpr hbelow)
  · refine mul_le_mul_of_nonneg_right ?_ hulp.le
    exact_mod_cast roundHalfEven_le ((div_le_iff₀ hulp).mpr habove)

theorem roundToPrecision_mono {p : ℕ} (hp : 0 < p) {q r : ℚ} (h : 0 ≤ q) (hle : q ≤ r) :
    roundToPrecision p q ≤ roundToPrecision p r := by
  by_cases hzero : q = 0
  · rw [hzero, roundToPrecision, if_pos rfl]
    exact roundToPrecision_nonneg (h.trans hle)
  have hq : 0 < q := lt_of_le_of_ne h (Ne.symm hzero)
  have hr : 0 < r := hq.trans_le hle
  rcases (leadingExponent_mono hq hle).lt_or_eq with hlt | heq
  · -- numbers of different binades
    have hmono : powTwo (leadingExponent q + 1) ≤ powTwo (leadingExponent r) := by
      rw [powTwo_eq_zpow, powTwo_eq_zpow]
      exact zpow_le_zpow_right₀ one_le_two (by omega)
    exact (roundToPrecision_binade hp hq).2.trans (hmono.trans (roundToPrecision_binade hp hr).1)
  · unfold roundToPrecision
    rw [if_neg hq.ne', if_neg hr.ne', abs_of_pos hq, abs_of_pos hr, heq]
    have hulp := powTwo_pos (leadingExponent r - p + 1)
    refine mul_le_mul_of_nonneg_right ?_ hulp.le
    exact_mod_cast roundHalfEven_mono (div_le_div_of_nonneg_right hle hulp.le)

example : roundHalfEven (5 / 2) = 2 := by decide +kernel

example : roundToPrecision 3 (9 / 2) = 4 := by decide +kernel

end Library.Rounding
