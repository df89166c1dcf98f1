import JiraSimulator.Library.Rounding
import Mathlib.Tactic.NormNum
import Mathlib.Tactic.Ring

/-!
# Rounding twice

A number that is first rounded to `p` significant bits and then to an integer can end at another
integer than the one it rounds to at once.  `RoundsOnce p` says when it does not.

* `roundHalfEven_eq_iff`: the integer that a number rounds to, a half to the even one.
* `roundTwice_eq_iff`: rounding twice agrees with rounding once exactly where `RoundsOnce` holds.
* `roundToPrecision_fraction_lt`: a proper fraction of a rounded number rounds below the number.
-/

namespace Library.Rounding

/-- The distance of the numbers with `p` significant bits around a number. -/
def spacing (p : ℕ) (q : ℚ) : ℚ :=
  powTwo (leadingExponent |q| - p + 1)

/-- What keeps two roundings from disagreeing.  Where the `p`-bit numbers are finer than the
integers, the number is not within half their spacing of a half, on the side of an odd integer: the
half would then be rounded away from the odd one.  Where they are coarser, one of them is within a
half. -/
def RoundsOnce (p : ℕ) (q : ℚ) : Prop :=
  (spacing p q ≤ 1 / 2 → ∀ n : ℤ, n % 2 = 1 → |q - n| < 1 / 2 →
    spacing p q / 2 < 1 / 2 - |q - n| ∨
      (spacing p q / 2 = 1 / 2 - |q - n| ∧ spacing p q = 1 / 2)) ∧
  (1 ≤ spacing p q → ∃ k : ℤ, |q - k * spacing p q| ≤ 1 / 2)

/-! ### The nearest integer -/

/-- A number rounds to the integer within a half of it, and at a half to the even one. -/
theorem roundHalfEven_eq_iff {q : ℚ} {n : ℤ} :
    roundHalfEven q = n ↔ |q - n| < 1 / 2 ∨ (|q - n| = 1 / 2 ∧ n % 2 = 0) := by
  constructor
  · rintro rfl
    have hfloor := Int.floor_le q
    have hlt := Int.lt_floor_add_one q
    unfold roundHalfEven
    dsimp only
    -- the value is rounded up, or it keeps its floor
    split_ifs with hup
    · push_cast
      rw [abs_of_nonpos (by linarith)]
      rcases hup with hup | ⟨hup, hodd⟩
      · left
        linarith
      · right
        exact ⟨by linarith, by omega⟩
    · rw [abs_of_nonneg (by linarith)]
      rw [not_or, not_lt, not_and] at hup
      rcases hup.1.lt_or_eq with hbelow | hhalf
      · exact .inl hbelow
      · have := hup.2 hhalf
        exact .inr ⟨hhalf, by omega⟩
  · rintro (hnear | ⟨htie, heven⟩)
    · exact roundHalfEven_eq_of_abs_lt hnear
    · unfold roundHalfEven
      dsimp only
      -- a tie lies above the even integer or below it
      rcases abs_eq (by norm_num : (0 : ℚ) ≤ 1 / 2) |>.mp htie with hright | hleft
      · have hfloor : ⌊q⌋ = n := Int.floor_eq_iff.mpr ⟨by linarith, by linarith⟩
        rw [hfloor, if_neg]
        rintro (hup | ⟨-, hodd⟩)
        · linarith
        · omega
      · have hfloor : ⌊q⌋ = n - 1 := Int.floor_eq_iff.mpr ⟨by push_cast; linarith, by
          push_cast; linarith⟩
        rw [hfloor, if_pos, sub_add_cancel]
        right
        exact ⟨by push_cast; linarith, by omega⟩

theorem abs_sub_roundHalfEven_le (q : ℚ) : |q - roundHalfEven q| ≤ 1 / 2 := by
  rw [abs_sub_comm]
  exact abs_roundHalfEven_sub_le q

theorem roundHalfEven_neg (q : ℚ) : roundHalfEven (-q) = -roundHalfEven q := by
  have hround := roundHalfEven_eq_iff.mp (rfl : roundHalfEven q = roundHalfEven q)
  rw [roundHalfEven_eq_iff]
  have habs : |-q - ((-roundHalfEven q : ℤ) : ℚ)| = |q - roundHalfEven q| := by
    rw [show -q - ((-roundHalfEven q : ℤ) : ℚ) = -(q - roundHalfEven q) by push_cast; ring, abs_neg]
  rw [habs]
  rcases hround with hnear | ⟨htie, heven⟩
  · exact .inl hnear
  · exact .inr ⟨htie, by omega⟩

/-! ### A coarse grid -/

/-- On a grid of even integers the two roundings agree where a grid point is within a half. -/
theorem roundTwice_coarse {q : ℚ} {u : ℤ} (hu : 1 < u) (heven : u % 2 = 0) :
    roundHalfEven (roundHalfEven (q / u) * (u : ℚ)) = roundHalfEven q ↔
      ∃ k : ℤ, |q - k * (u : ℚ)| ≤ 1 / 2 := by
  have hgrid : roundHalfEven (roundHalfEven (q / u) * (u : ℚ)) = roundHalfEven (q / u) * u := by
    exact_mod_cast roundHalfEven_intCast (roundHalfEven (q / u) * u)
  have hpos : (1 : ℚ) < u := by exact_mod_cast hu
  rw [hgrid]
  constructor
  · intro h
    refine ⟨roundHalfEven (q / u), ?_⟩
    have hnear := abs_sub_roundHalfEven_le q
    rw [← h] at hnear
    exact_mod_cast hnear
  · rintro ⟨k, hk⟩
    -- the grid point is the nearest one
    have hnear : |q / u - k| < 1 / 2 := by
      have hscaled : q / u - k = (q - k * u) / u := by field_simp
      rw [hscaled, abs_div, abs_of_pos (by linarith : (0 : ℚ) < u), div_lt_iff₀ (by linarith)]
      linarith
    rw [roundHalfEven_eq_of_abs_lt hnear]
    refine (roundHalfEven_eq_iff.mpr ?_).symm
    push_cast
    rcases hk.lt_or_eq with hlt | htie
    · exact .inl hlt
    · exact .inr ⟨htie, by rw [Int.mul_emod, heven, mul_zero, Int.zero_emod]⟩

/-! ### A fine grid -/

section fine

variable {q : ℚ} {s : ℕ} {n : ℤ}

/-- On a grid of `2 * s` points to the unit, an integer and its halves are grid points. -/
theorem gridPoint_mem_range (hs : 0 < s) (hn : |q - n| ≤ 1 / 2) :
    (2 * n - 1) * s ≤ roundHalfEven (q * (2 * s)) ∧
      roundHalfEven (q * (2 * s)) ≤ (2 * n + 1) * s := by
  have hpos : (0 : ℚ) < s := by exact_mod_cast hs
  obtain ⟨hlow, hhigh⟩ := abs_le.mp hn
  constructor
  · apply le_roundHalfEven
    push_cast
    nlinarith
  · apply roundHalfEven_le
    push_cast
    nlinarith

/-- The grid point of a number is not the half above an integer. -/
theorem gridPoint_ne_above (hs : 0 < s) (hn : |q - n| < 1 / 2) (hodd : n % 2 = 1) :
    roundHalfEven (q * (2 * s)) ≠ (2 * n + 1) * s ↔
      1 / (4 * s : ℚ) < n + 1 / 2 - q ∨ (1 / (4 * s : ℚ) = n + 1 / 2 - q ∧ s % 2 = 1) := by
  have hpos : (0 : ℚ) < s := by exact_mod_cast hs
  have hbelow : 0 ≤ n + 1 / 2 - q := by
    have := (abs_lt.mp hn).2
    linarith
  have hgap : |q * (2 * s) - ((2 * n + 1) * s : ℤ)| = (n + 1 / 2 - q) * (2 * s) := by
    push_cast
    rw [abs_sub_comm, abs_of_nonneg] <;> nlinarith
  have hscale : 1 / (4 * s : ℚ) * (2 * s) = 1 / 2 := by
    field_simp
    norm_num
  have hlt : (n + 1 / 2 - q) * (2 * s) < 1 / 2 ↔ n + 1 / 2 - q < 1 / (4 * s : ℚ) := by
    rw [← hscale]
    exact mul_lt_mul_iff_of_pos_right (by positivity)
  have heq : (n + 1 / 2 - q) * (2 * s) = 1 / 2 ↔ n + 1 / 2 - q = 1 / (4 * s : ℚ) := by
    rw [← hscale]
    exact mul_left_inj' (by positivity)
  have hparity : ((2 * n + 1) * s : ℤ) % 2 = 0 ↔ s % 2 = 0 := by
    rw [Int.mul_emod, show (2 * n + 1) % 2 = 1 by omega, one_mul, Int.emod_emod]
    omega
  rw [Ne, roundHalfEven_eq_iff, hgap, hlt, heq, hparity, not_or, not_lt, not_and]
  constructor
  · rintro ⟨hle, hodd'⟩
    rcases hle.lt_or_eq with hlt' | heq'
    · exact .inl hlt'
    · exact .inr ⟨heq', by have := hodd' heq'.symm; omega⟩
  · rintro (hlt' | ⟨heq', hodd'⟩)
    · exact ⟨hlt'.le, fun heq'' => absurd heq'' hlt'.ne'⟩
    · exact ⟨heq'.le, fun _ => by omega⟩

/-- Nor the half below it. -/
theorem gridPoint_ne_below (hs : 0 < s) (hn : |q - n| < 1 / 2) (hodd : n % 2 = 1) :
    roundHalfEven (q * (2 * s)) ≠ (2 * n - 1) * s ↔
      1 / (4 * s : ℚ) < q - n + 1 / 2 ∨ (1 / (4 * s : ℚ) = q - n + 1 / 2 ∧ s % 2 = 1) := by
  have hneg : |-q - ((-n : ℤ) : ℚ)| < 1 / 2 := by
    rw [show -q - ((-n : ℤ) : ℚ) = -(q - n) by push_cast; ring, abs_neg]
    exact hn
  have habove := gridPoint_ne_above hs hneg (by omega)
  rw [neg_mul, roundHalfEven_neg, Ne, neg_eq_iff_eq_neg] at habove
  push_cast at habove
  rw [show -((2 * -n + 1) * (s : ℤ)) = (2 * n - 1) * s by ring,
    show -(n : ℚ) + 1 / 2 - -q = q - n + 1 / 2 by ring] at habove
  exact habove

/-- On a fine grid the two roundings agree where the grid point of a number is no half on the side
of an odd integer. -/
theorem roundTwice_fine (hs : 0 < s) :
    roundHalfEven (roundHalfEven (q * (2 * s)) / (2 * s : ℚ)) = roundHalfEven q ↔
      ∀ n : ℤ, n % 2 = 1 → |q - n| < 1 / 2 →
        1 / (4 * s : ℚ) < 1 / 2 - |q - n| ∨ (1 / (4 * s : ℚ) = 1 / 2 - |q - n| ∧ s % 2 = 1) := by
  have hpos : (0 : ℚ) < 2 * s := by positivity
  set m := roundHalfEven (q * (2 * s)) with hm
  -- an odd integer is kept when the grid point is neither of its halves
  have hkeeps : ∀ n : ℤ, n % 2 = 1 → |q - n| < 1 / 2 →
      (roundHalfEven (m / (2 * s : ℚ)) = n ↔ m ≠ (2 * n + 1) * s ∧ m ≠ (2 * n - 1) * s) := by
    intro n hodd hn
    obtain ⟨hlow, hhigh⟩ := gridPoint_mem_range hs hn.le
    rw [roundHalfEven_eq_iff]
    have hnot : ¬ (|(m : ℚ) / (2 * s) - n| = 1 / 2 ∧ n % 2 = 0) := by omega
    rw [or_iff_left hnot, abs_lt, lt_sub_iff_add_lt, lt_div_iff₀ hpos, sub_lt_iff_lt_add,
      div_lt_iff₀ hpos]
    have hleft : (-(1 / 2) + n) * (2 * s : ℚ) = ((2 * n - 1) * s : ℤ) := by
      push_cast
      ring
    have hright : (1 / 2 + n) * (2 * s : ℚ) = ((2 * n + 1) * s : ℤ) := by
      push_cast
      ring
    rw [hleft, hright, Int.cast_lt, Int.cast_lt]
    omega
  constructor
  · intro h n hodd hn
    rw [roundHalfEven_eq_of_abs_lt hn] at h
    obtain ⟨habove, hbelow⟩ := (hkeeps n hodd hn).mp h
    rw [gridPoint_ne_above hs hn hodd] at habove
    rw [gridPoint_ne_below hs hn hodd] at hbelow
    rcases abs_cases (q - n) with ⟨habs, -⟩ | ⟨habs, -⟩
    · rw [habs, show (1 : ℚ) / 2 - (q - n) = n + 1 / 2 - q by ring]
      exact habove
    · rw [habs, show (1 : ℚ) / 2 - -(q - n) = q - n + 1 / 2 by ring]
      exact hbelow
  · intro h
    have hround := roundHalfEven_eq_iff.mp (rfl : roundHalfEven q = roundHalfEven q)
    set n := roundHalfEven q
    rcases Int.emod_two_eq_zero_or_one n with heven | hodd
    · -- an even integer takes both of its halves
      have hnear : |q - n| ≤ 1 / 2 := hround.elim le_of_lt fun htie => htie.1.le
      obtain ⟨hlow, hhigh⟩ := gridPoint_mem_range hs hnear
      have hwithin : |(m : ℚ) / (2 * s) - n| ≤ 1 / 2 := by
        rw [abs_le, le_sub_iff_add_le, le_div_iff₀ hpos, sub_le_iff_le_add, div_le_iff₀ hpos]
        have hlow' : (((2 * n - 1) * s : ℤ) : ℚ) ≤ m := Int.cast_le.mpr hlow
        have hhigh' : (m : ℚ) ≤ ((2 * n + 1) * s : ℤ) := Int.cast_le.mpr hhigh
        push_cast at hlow' hhigh'
        constructor <;> linarith
      rw [roundHalfEven_eq_iff]
      exact hwithin.lt_or_eq.imp_right fun htie => ⟨htie, heven⟩
    · have hn : |q - n| < 1 / 2 := hround.resolve_right fun htie => by omega
      rw [hkeeps n hodd hn, gridPoint_ne_above hs hn hodd, gridPoint_ne_below hs hn hodd]
      have hgap := h n hodd hn
      have hleft : 1 / 2 - |q - n| ≤ n + 1 / 2 - q := by linarith [le_abs_self (q - n)]
      have hright : 1 / 2 - |q - n| ≤ q - n + 1 / 2 := by linarith [neg_abs_le (q - n)]
      rcases hgap with hlt | ⟨heq, hodd'⟩
      · exact ⟨.inl (hlt.trans_le hleft), .inl (hlt.trans_le hright)⟩
      · rw [heq]
        exact ⟨hleft.lt_or_eq.imp_right fun heq' => ⟨heq', hodd'⟩,
          hright.lt_or_eq.imp_right fun heq' => ⟨heq', hodd'⟩⟩

end fine

/-! ### Significant bits -/

/-- Rounding to `p` bits and then to an integer agrees with rounding to an integer exactly where the
number rounds once. -/
theorem roundTwice_eq_iff {p : ℕ} {q : ℚ} :
    roundHalfEven (roundToPrecision p q) = roundHalfEven q ↔ RoundsOnce p q := by
  by_cases hzero : q = 0
  · subst hzero
    rw [roundToPrecision, if_pos rfl, eq_self_iff_true, true_iff]
    refine ⟨fun _ n hodd hn => ?_, fun _ => ⟨0, by norm_num⟩⟩
    have hround := roundHalfEven_eq_of_abs_lt hn
    rw [show roundHalfEven 0 = 0 from roundHalfEven_intCast 0] at hround
    omega
  have hround : roundToPrecision p q = roundHalfEven (q / spacing p q) * spacing p q := by
    rw [roundToPrecision, if_neg hzero, spacing]
  rw [hround, RoundsOnce]
  rcases le_or_gt 0 (leadingExponent |q| - p + 1) with hcoarse | hfine
  · obtain ⟨j, hj⟩ := Int.eq_ofNat_of_zero_le hcoarse
    have hspacing : spacing p q = ((2 ^ j : ℤ) : ℚ) := by
      rw [spacing, powTwo_eq_zpow, hj]
      push_cast
      simp
    -- the first rounding is to a multiple of a whole power of two
    have hone : (1 : ℚ) ≤ spacing p q := by
      rw [hspacing]
      exact_mod_cast one_le_pow₀ (one_le_two : (1 : ℤ) ≤ 2)
    have hvacuous : ¬ spacing p q ≤ 1 / 2 := by linarith
    simp only [hvacuous, false_implies, hone, true_implies, true_and]
    rcases Nat.eq_zero_or_pos j with rfl | hpos
    · rw [hspacing]
      simp only [pow_zero, Int.cast_one, div_one, mul_one, roundHalfEven_intCast, true_iff]
      exact ⟨_, abs_sub_roundHalfEven_le q⟩
    · rw [hspacing]
      refine roundTwice_coarse ?_ ?_
      · exact one_lt_pow₀ (by norm_num) hpos.ne'
      · obtain ⟨k, rfl⟩ : ∃ k, j = k + 1 := ⟨j - 1, by omega⟩
        rw [pow_succ]
        omega
  · obtain ⟨j, hj⟩ := Int.eq_ofNat_of_zero_le (a := -(leadingExponent |q| - p + 1) - 1) (by omega)
    have hspacing : spacing p q = 1 / (2 * (2 ^ j : ℕ) : ℚ) := by
      rw [spacing, powTwo_eq_zpow, show leadingExponent |q| - p + 1 = -((j + 1 : ℕ) : ℤ) by
        push_cast; omega, zpow_neg, zpow_natCast, pow_succ]
      push_cast
      field_simp
    -- the first rounding is to a fraction of one
    have hpow : (1 : ℚ) ≤ (2 ^ j : ℕ) := by exact_mod_cast Nat.one_le_two_pow
    have hhalf : spacing p q ≤ 1 / 2 := by
      rw [hspacing]
      exact one_div_le_one_div_of_le two_pos (by linarith)
    have hvacuous : ¬ (1 : ℚ) ≤ spacing p q := by linarith
    simp only [hvacuous, false_implies, hhalf, true_implies, and_true]
    have hwhole : spacing p q = 1 / 2 ↔ (2 ^ j) % 2 = 1 := by
      rw [hspacing, div_eq_div_iff (by positivity) two_ne_zero]
      rcases Nat.eq_zero_or_pos j with rfl | hpos
      · simp
      · obtain ⟨k, rfl⟩ : ∃ k, j = k + 1 := ⟨j - 1, by omega⟩
        have hk : (1 : ℚ) ≤ 2 ^ k := one_le_pow₀ one_le_two
        push_cast
        rw [pow_succ, pow_succ]
        constructor
        · intro h
          linarith
        · omega
    have hquarter : spacing p q / 2 = 1 / (4 * (2 ^ j : ℕ) : ℚ) := by
      rw [hspacing]
      field_simp
      norm_num
    have hdiv : q / spacing p q = q * (2 * (2 ^ j : ℕ)) := by
      rw [hspacing, div_div_eq_mul_div, div_one]
    have hmul : ∀ m : ℤ, (m : ℚ) * spacing p q = m / (2 * (2 ^ j : ℕ)) := by
      intro m
      rw [hspacing, mul_one_div]
    rw [hdiv, hmul, roundTwice_fine (Nat.two_pow_pos j), hquarter, hwhole]

/-! ### Fractions of rounded numbers -/

theorem leadingExponent_eq {q : ℚ} {e : ℤ} (hle : powTwo e ≤ q) (hlt : q < powTwo (e + 1)) :
    leadingExponent q = e := by
  have hpos := (powTwo_pos e).trans_le hle
  have hbelow := (powTwo_leadingExponent_le hpos).trans_lt hlt
  have habove := hle.trans_lt (lt_powTwo_leadingExponent hpos)
  rw [powTwo_eq_zpow, powTwo_eq_zpow, zpow_lt_zpow_iff_right₀ one_lt_two] at hbelow habove
  omega

/-- The binade of a number is made of its spacings. -/
theorem powTwo_eq_spacing {p : ℕ} (hp : 0 < p) (e : ℤ) :
    powTwo e = 2 ^ (p - 1) * powTwo (e - p + 1) ∧ powTwo (e + 1) = 2 ^ p * powTwo (e - p + 1) := by
  obtain ⟨k, rfl⟩ : ∃ k, p = k + 1 := ⟨p - 1, by omega⟩
  simp only [powTwo_eq_zpow, Nat.add_sub_cancel]
  rw [← zpow_natCast, ← zpow_natCast, ← zpow_add₀ two_ne_zero, ← zpow_add₀ two_ne_zero]
  constructor <;> congr 1 <;> push_cast <;> ring

/-- A number of a binade rounds to the multiple of its spacing that is near. -/
theorem roundToPrecision_eq {p : ℕ} {q : ℚ} {e m : ℤ} (hle : powTwo e ≤ q)
    (hlt : q < powTwo (e + 1)) (hm : |q / powTwo (e - p + 1) - m| < 1 / 2) :
    roundToPrecision p q = m * powTwo (e - p + 1) := by
  have hpos := (powTwo_pos e).trans_le hle
  rw [roundToPrecision, if_neg hpos.ne', abs_of_pos hpos, leadingExponent_eq hle hlt]
  dsimp only
  rw [roundHalfEven_eq_of_abs_lt hm]

/-- A proper fraction of a number with `p` bits rounds below the number that this one rounds. -/
theorem roundToPrecision_fraction_lt {p n : ℕ} (hp : 0 < p) (hn : n < 2 ^ p) {q : ℚ} (hq : 0 < q) :
    roundToPrecision p (n / 2 ^ p * roundToPrecision p q) < q := by
  obtain ⟨hlow, hhigh⟩ := powTwo_eq_spacing hp (leadingExponent q)
  obtain ⟨hbelow, habove⟩ := roundToPrecision_binade hp hq
  have hu := powTwo_pos (leadingExponent q - p + 1)
  have hround : roundToPrecision p q = roundHalfEven (q / powTwo (leadingExponent q - p + 1)) *
      powTwo (leadingExponent q - p + 1) := by
    rw [roundToPrecision, if_neg hq.ne', abs_of_pos hq]
  have hnear := abs_le.mp (abs_roundHalfEven_sub_le (q / powTwo (leadingExponent q - p + 1)))
  set u := powTwo (leadingExponent q - p + 1) with hudef
  set h := roundHalfEven (q / u)
  rw [hround] at hbelow habove ⊢
  rw [hlow] at hbelow
  rw [hhigh] at habove
  have hbelow' : (2 : ℚ) ^ (p - 1) ≤ h := le_of_mul_le_mul_right hbelow hu
  have habove' : (h : ℚ) ≤ 2 ^ p := le_of_mul_le_mul_right habove hu
  have hpow : (2 : ℚ) ^ p = 2 * 2 ^ (p - 1) := by
    rw [← pow_succ']
    congr 1
    omega
  have hone : (1 : ℚ) ≤ 2 ^ (p - 1) := one_le_pow₀ one_le_two
  have hpos : (0 : ℚ) < h := by linarith
  -- the largest fraction
  have hle : (n : ℚ) / 2 ^ p * (h * u) ≤ (h - h / 2 ^ p) * u := by
    have hn' : (n : ℚ) ≤ 2 ^ p - 1 := by
      have : n + 1 ≤ 2 ^ p := hn
      have : ((n + 1 : ℕ) : ℚ) ≤ 2 ^ p := by exact_mod_cast this
      push_cast at this
      linarith
    have hfraction : (n : ℚ) / 2 ^ p ≤ 1 - 1 / 2 ^ p := by
      rw [div_le_iff₀ (by positivity), sub_mul, one_mul, one_div, inv_mul_cancel₀ (by positivity)]
      exact hn'
    calc (n : ℚ) / 2 ^ p * (h * u) ≤ (1 - 1 / 2 ^ p) * (h * u) :=
          mul_le_mul_of_nonneg_right hfraction (by positivity)
      _ = (h - h / 2 ^ p) * u := by ring
  have hnonneg : 0 ≤ (n : ℚ) / 2 ^ p * (h * u) := by positivity
  refine (roundToPrecision_mono hp hnonneg hle).trans_lt ?_
  have hfraction : (h : ℚ) / 2 ^ p * (2 * 2 ^ (p - 1)) = h := by
    rw [← hpow, div_mul_cancel₀ _ (by positivity)]
  set fraction := (h : ℚ) / 2 ^ p
  have hleast := powTwo_leadingExponent_le hq
  rw [hlow] at hleast
  rcases hbelow'.eq_or_lt with heq | hlt
  · -- the number that is rounded begins its binade, and its fraction lies in the one before
    have hhalf : fraction = 1 / 2 := by
      have hpos' : (0 : ℚ) < 2 * 2 ^ (p - 1) := by positivity
      refine mul_right_cancel₀ hpos'.ne' (hfraction.trans ?_)
      rw [← heq]
      ring
    obtain ⟨hprev, hnext⟩ := powTwo_eq_spacing hp (leadingExponent q - 1)
    rw [sub_add_cancel, hlow, hpow] at hnext
    have hv : powTwo (leadingExponent q - 1 - p + 1) = u / 2 := by
      refine mul_left_cancel₀ (show (2 * 2 ^ (p - 1) : ℚ) ≠ 0 by positivity) ?_
      rw [← hnext]
      ring
    have hm : |(h - fraction) * u / powTwo (leadingExponent q - 1 - p + 1) -
        ((2 * 2 ^ (p - 1) - 1 : ℤ) : ℚ)| < 1 / 2 := by
      rw [hv, hhalf, ← heq]
      push_cast
      rw [show ((2 : ℚ) ^ (p - 1) - 1 / 2) * u / (u / 2) - (2 * 2 ^ (p - 1) - 1) = 0 by
        field_simp
        ring]
      norm_num
    rw [roundToPrecision_eq ?_ ?_ hm, hv]
    · push_cast
      nlinarith
    · rw [hprev, hv, hhalf, ← heq]
      nlinarith
    · rw [sub_add_cancel, hlow, hhalf, ← heq]
      nlinarith
  · -- the fraction stays in the binade, less than half a spacing above the number before
    have hsucc : (2 : ℚ) ^ (p - 1) + 1 ≤ h := by
      have hlt' : (2 : ℤ) ^ (p - 1) < h := by exact_mod_cast hlt
      exact_mod_cast hlt'
    have hmore : 1 / 2 < fraction := by
      nlinarith
    have hatMost : fraction ≤ 1 := by
      nlinarith
    have hm : |(h - fraction) * u / u - ((h - 1 : ℤ) : ℚ)| < 1 / 2 := by
      rw [mul_div_cancel_right₀ _ hu.ne', abs_of_nonneg (by push_cast; linarith)]
      push_cast
      linarith
    rw [roundToPrecision_eq ?_ ?_ hm]
    · push_cast
      have hbound : (h : ℚ) - q / u ≤ 1 / 2 := hnear.2
      have hscaled : (h : ℚ) * u - q ≤ 1 / 2 * u := by
        calc (h : ℚ) * u - q = (h - q / u) * u := by field_simp
          _ ≤ 1 / 2 * u := mul_le_mul_of_nonneg_right hbound hu.le
      linarith
    · rw [hlow]
      exact mul_le_mul_of_nonneg_right (by linarith) hu.le
    · rw [hhigh]
      exact mul_lt_mul_of_pos_right (by linarith) hu

end Library.Rounding
