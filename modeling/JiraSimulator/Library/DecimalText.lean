import Mathlib.Algebra.Order.Field.Rat
import Mathlib.Algebra.Order.Field.Power
import Mathlib.Data.Rat.Lemmas
import Mathlib.Tactic.NormNum
import Mathlib.Tactic.Ring
import Mathlib.Tactic.Linarith

/-!
# Decimal texts of numbers

Python's `repr` and ECMAScript's `Number::toString` both write a double with the digits of the
shortest decimal that reads back as it.  They place the decimal point by different rules.

Main results:
* `pythonFloat_eq_ecmaFloat_iff` : the doubles that have one text under both rules;
* `ecmaInteger_eq` : the integers below `10^21` have their plain digits in ECMAScript.
-/

namespace Library.DecimalText

/-- The digits of a natural number. -/
def digitsOf (m : ℕ) : List Char :=
  Nat.toDigits 10 m

def zeros (count : ℕ) : List Char :=
  List.replicate count '0'

/-! ### Shortest decimals -/

/-- The shortest decimal that reads back as a positive double.  Its value is
`0.significand · 10 ^ point`. -/
structure ShortestDecimal where
  significand : ℕ
  point : ℤ
  normal : ¬ 10 ∣ significand
  short : significand < 10 ^ 17
  deriving DecidableEq

/-- A finite double. -/
inductive JsonFloat where
  | zero (negative : Bool)
  | nonzero (negative : Bool) (decimal : ShortestDecimal)
  deriving DecidableEq

namespace ShortestDecimal

variable (d : ShortestDecimal)

/-- The number of the digits. -/
def length : ℕ := (digitsOf d.significand).length

/-- The number the decimal stands for. -/
def value : ℚ := (d.significand : ℚ) * 10 ^ (d.point - d.length)

theorem significand_pos : 0 < d.significand := by
  rcases Nat.eq_zero_or_pos d.significand with h | h
  · exact absurd (h ▸ dvd_zero 10) d.normal
  · exact h

theorem length_pos : 0 < d.length := Nat.length_toDigits_pos

theorem length_le : d.length ≤ 17 :=
  (Nat.length_toDigits_le_iff (by omega) (by omega)).mpr d.short

theorem lt_pow_length : d.significand < 10 ^ d.length :=
  (Nat.length_toDigits_le_iff (by omega) d.length_pos).mp le_rfl

theorem pow_length_le : 10 ^ (d.length - 1) ≤ d.significand := by
  by_contra h
  rcases Nat.eq_zero_or_pos (d.length - 1) with hone | hpos
  · rw [hone] at h
    have := d.significand_pos
    omega
  · have hle := (Nat.length_toDigits_le_iff (b := 10) (n := d.significand) (by omega) hpos).mpr
      (not_le.mp h)
    have : (Nat.toDigits 10 d.significand).length = d.length := rfl
    have := d.length_pos
    omega

theorem value_pos : 0 < d.value := by
  have := d.significand_pos
  unfold value
  positivity

theorem value_lt : d.value < 10 ^ d.point := by
  have hlt : (d.significand : ℚ) < 10 ^ (d.length : ℤ) := by
    rw [zpow_natCast]
    exact_mod_cast d.lt_pow_length
  calc d.value < 10 ^ (d.length : ℤ) * 10 ^ (d.point - d.length) := by
        unfold value
        gcongr
    _ = 10 ^ d.point := by rw [← zpow_add₀ (by norm_num)]; congr 1; ring

theorem le_value : 10 ^ (d.point - 1) ≤ d.value := by
  have hle : (10 : ℚ) ^ ((d.length : ℤ) - 1) ≤ d.significand := by
    have hcast : ((d.length : ℤ) - 1) = ((d.length - 1 : ℕ) : ℤ) := by
      have := d.length_pos
      omega
    rw [hcast, zpow_natCast]
    exact_mod_cast d.pow_length_le
  calc (10 : ℚ) ^ (d.point - 1) = 10 ^ ((d.length : ℤ) - 1) * 10 ^ (d.point - d.length) := by
        rw [← zpow_add₀ (by norm_num)]; congr 1; ring
    _ ≤ d.value := by unfold value; gcongr

/-- The decimal point decides how the value compares with a power of ten. -/
theorem value_lt_iff (n : ℤ) : d.value < 10 ^ n ↔ d.point ≤ n := by
  refine ⟨fun h => ?_, fun h => ?_⟩
  · by_contra hlt
    have hpow : (10 : ℚ) ^ n ≤ 10 ^ (d.point - 1) := zpow_le_zpow_right₀ (by norm_num) (by omega)
    exact absurd (h.trans_le (hpow.trans d.le_value)) (lt_irrefl _)
  · exact d.value_lt.trans_le (zpow_le_zpow_right₀ (by norm_num) h)

theorem le_value_iff (n : ℤ) : (10 : ℚ) ^ n ≤ d.value ↔ n < d.point := by
  rw [← not_lt, d.value_lt_iff, not_le]

/-- The value is an integer when the decimal point stands behind the last digit. -/
theorem value_isInt_iff : (∃ m : ℤ, d.value = m) ↔ (d.length : ℤ) ≤ d.point := by
  constructor
  · rintro ⟨m, hm⟩
    by_contra hlt
    -- a multiple of ten would end in a zero
    obtain ⟨k, hk⟩ : ∃ k : ℕ, (d.length : ℤ) - d.point = k + 1 :=
      ⟨((d.length : ℤ) - d.point - 1).toNat, by omega⟩
    have hval : (d.significand : ℚ) = m * 10 ^ (k + 1) := by
      rw [← hm, value, mul_assoc, ← zpow_natCast, ← zpow_add₀ (by norm_num)]
      rw [show d.point - d.length + ((k + 1 : ℕ) : ℤ) = 0 by push_cast; omega, zpow_zero, mul_one]
    have hint : (d.significand : ℤ) = m * 10 ^ (k + 1) := by exact_mod_cast hval
    have hdvd : (10 : ℤ) ∣ d.significand := by
      rw [hint, pow_succ]
      exact ⟨m * 10 ^ k, by ring⟩
    exact d.normal (by exact_mod_cast hdvd)
  · intro hle
    obtain ⟨k, hk⟩ : ∃ k : ℕ, d.point - d.length = k :=
      ⟨(d.point - d.length).toNat, by omega⟩
    refine ⟨(d.significand : ℤ) * 10 ^ k, ?_⟩
    rw [value, hk, zpow_natCast]
    push_cast
    ring

end ShortestDecimal

/-- The number a double stands for, with the value of its shortest decimal. -/
def JsonFloat.value : JsonFloat → ℚ
  | .zero _ => 0
  | .nonzero negative decimal => if negative then -decimal.value else decimal.value

/-! ### The two rules -/

/-- The text of an exponent: Python writes at least two digits. -/
def exponentDigits (atLeast exponent : ℕ) : List Char :=
  zeros (atLeast - (digitsOf exponent).length) ++ digitsOf exponent

/-- `d.ddde±x`, with at least `atLeast` digits in the exponent. -/
def scientific (atLeast : ℕ) (digits : List Char) (point : ℤ) : List Char :=
  let exponent := point - 1
  digits.take 1 ++ (if digits.length = 1 then [] else '.' :: digits.drop 1) ++
    'e' :: (if exponent < 0 then '-' else '+') :: exponentDigits atLeast exponent.natAbs

/-- `0.000ddd`. -/
def fraction (digits : List Char) (point : ℤ) : List Char :=
  '0' :: '.' :: (zeros (-point).toNat ++ digits)

/-- `ddd.ddd`. -/
def mixed (digits : List Char) (point : ℤ) : List Char :=
  digits.take point.toNat ++ '.' :: digits.drop point.toNat

/-- `ddd000`. -/
def whole (digits : List Char) (point : ℤ) : List Char :=
  digits ++ zeros (point.toNat - digits.length)

/-- `float.__repr__` of a positive double with these digits. -/
def pythonNumber (digits : List Char) (point : ℤ) : List Char :=
  if -4 < point ∧ point ≤ 16 then
    if point ≤ 0 then fraction digits point
    else if point < digits.length then mixed digits point
    else whole digits point ++ ['.', '0']
  else scientific 2 digits point

/-- `Number::toString` of a positive number with these digits. -/
def ecmaNumber (digits : List Char) (point : ℤ) : List Char :=
  if digits.length ≤ point ∧ point ≤ 21 then whole digits point
  else if 0 < point ∧ point ≤ 21 then mixed digits point
  else if -6 < point ∧ point ≤ 0 then fraction digits point
  else scientific 1 digits point

/-- A text with the sign in front. -/
def signed (negative : Bool) (text : List Char) : List Char :=
  if negative then '-' :: text else text

/-- `float.__repr__`. -/
def pythonFloat : JsonFloat → List Char
  | .zero negative => signed negative ['0', '.', '0']
  | .nonzero negative decimal =>
    signed negative (pythonNumber (digitsOf decimal.significand) decimal.point)

/-- `Number::toString` of a double; both zeros are `0`. -/
def ecmaFloat : JsonFloat → List Char
  | .zero _ => ['0']
  | .nonzero negative decimal =>
    signed negative (ecmaNumber (digitsOf decimal.significand) decimal.point)

/-! ### The characters of a text -/

theorem isDigit_of_mem_digitsOf {m : ℕ} {c : Char} (h : c ∈ digitsOf m) : c.isDigit :=
  Nat.isDigit_of_mem_toDigits (by omega) (by omega) h

theorem isDigit_of_mem_zeros {count : ℕ} {c : Char} (h : c ∈ zeros count) : c.isDigit := by
  rw [List.eq_of_mem_replicate h]
  decide

theorem isDigit_of_mem_whole {digits : List Char} (hdigits : ∀ c ∈ digits, c.isDigit) {point : ℤ}
    {c : Char} (h : c ∈ whole digits point) : c.isDigit := by
  rcases List.mem_append.mp h with h | h
  · exact hdigits c h
  · exact isDigit_of_mem_zeros h

theorem ne_e_of_mem_fraction {digits : List Char} (hdigits : ∀ c ∈ digits, c.isDigit) {point : ℤ} :
    'e' ∉ fraction digits point := by
  intro h
  simp only [fraction, List.mem_cons, List.mem_append] at h
  rcases h with h | h | h | h
  · exact absurd h (by decide)
  · exact absurd h (by decide)
  · exact absurd (isDigit_of_mem_zeros h) (by decide)
  · exact absurd (hdigits _ h) (by decide)

theorem e_mem_scientific (atLeast : ℕ) (digits : List Char) (point : ℤ) :
    'e' ∈ scientific atLeast digits point := by
  simp [scientific]

/-- The characters of the texts of numbers. -/
def NumberChar (c : Char) : Prop :=
  c.isDigit ∨ c = '.' ∨ c = 'e' ∨ c = '+' ∨ c = '-'

theorem numberChar_scientific {digits : List Char} (hdigits : ∀ c ∈ digits, c.isDigit)
    {atLeast : ℕ} {point : ℤ} {c : Char} (h : c ∈ scientific atLeast digits point) :
    NumberChar c := by
  simp only [scientific, exponentDigits, List.mem_append, List.mem_cons] at h
  rcases h with (h | h) | h | h | h | h
  · exact .inl (hdigits c (List.mem_of_mem_take h))
  · split_ifs at h
    · exact absurd h List.not_mem_nil
    · rcases List.mem_cons.mp h with h | h
      · exact .inr (.inl h)
      · exact .inl (hdigits c (List.mem_of_mem_drop h))
  · exact .inr (.inr (.inl h))
  · split_ifs at h
    · exact .inr (.inr (.inr (.inr h)))
    · exact .inr (.inr (.inr (.inl h)))
  · exact .inl (isDigit_of_mem_zeros h)
  · exact .inl (isDigit_of_mem_digitsOf h)

theorem numberChar_fraction {digits : List Char} (hdigits : ∀ c ∈ digits, c.isDigit)
    {point : ℤ} {c : Char} (h : c ∈ fraction digits point) : NumberChar c := by
  simp only [fraction, List.mem_cons, List.mem_append] at h
  rcases h with h | h | h | h
  · exact .inl (h ▸ by decide)
  · exact .inr (.inl h)
  · exact .inl (isDigit_of_mem_zeros h)
  · exact .inl (hdigits c h)

theorem numberChar_mixed {digits : List Char} (hdigits : ∀ c ∈ digits, c.isDigit)
    {point : ℤ} {c : Char} (h : c ∈ mixed digits point) : NumberChar c := by
  simp only [mixed, List.mem_cons, List.mem_append] at h
  rcases h with h | h | h
  · exact .inl (hdigits c (List.mem_of_mem_take h))
  · exact .inr (.inl h)
  · exact .inl (hdigits c (List.mem_of_mem_drop h))

theorem numberChar_pythonNumber {digits : List Char} (hdigits : ∀ c ∈ digits, c.isDigit)
    {point : ℤ} {c : Char} (h : c ∈ pythonNumber digits point) : NumberChar c := by
  unfold pythonNumber at h
  split_ifs at h
  · exact numberChar_fraction hdigits h
  · exact numberChar_mixed hdigits h
  · rcases List.mem_append.mp h with h | h
    · exact .inl (isDigit_of_mem_whole hdigits h)
    · simp only [List.mem_cons, List.not_mem_nil, or_false] at h
      rcases h with h | h
      · exact .inr (.inl h)
      · exact .inl (h ▸ by decide)
  · exact numberChar_scientific hdigits h

theorem numberChar_ecmaNumber {digits : List Char} (hdigits : ∀ c ∈ digits, c.isDigit)
    {point : ℤ} {c : Char} (h : c ∈ ecmaNumber digits point) : NumberChar c := by
  unfold ecmaNumber at h
  split_ifs at h
  · exact .inl (isDigit_of_mem_whole hdigits h)
  · exact numberChar_mixed hdigits h
  · exact numberChar_fraction hdigits h
  · exact numberChar_scientific hdigits h

theorem numberChar_signed {negative : Bool} {text : List Char} (htext : ∀ c ∈ text, NumberChar c)
    {c : Char} (h : c ∈ signed negative text) : NumberChar c := by
  unfold signed at h
  split_ifs at h
  · rcases List.mem_cons.mp h with h | h
    · exact .inr (.inr (.inr (.inr h)))
    · exact htext c h
  · exact htext c h

theorem numberChar_pythonFloat {x : JsonFloat} {c : Char} (h : c ∈ pythonFloat x) :
    NumberChar c := by
  cases x with
  | zero negative =>
    refine numberChar_signed (fun c h => ?_) h
    simp only [List.mem_cons, List.not_mem_nil, or_false] at h
    rcases h with h | h | h
    · exact .inl (h ▸ by decide)
    · exact .inr (.inl h)
    · exact .inl (h ▸ by decide)
  | nonzero negative decimal =>
    exact numberChar_signed (fun c h => numberChar_pythonNumber
      (fun c h => isDigit_of_mem_digitsOf h) h) h

theorem numberChar_ecmaFloat {x : JsonFloat} {c : Char} (h : c ∈ ecmaFloat x) :
    NumberChar c := by
  cases x with
  | zero negative =>
    rw [show c = '0' from List.mem_singleton.mp h]
    exact .inl (by decide)
  | nonzero negative decimal =>
    exact numberChar_signed (fun c h => numberChar_ecmaNumber
      (fun c h => isDigit_of_mem_digitsOf h) h) h

/-! ### Where the rules agree -/

theorem signed_inj {negative : Bool} {a b : List Char} :
    signed negative a = signed negative b ↔ a = b := by
  unfold signed
  split_ifs <;> simp

/-- An exponent of two digits or more has one text. -/
theorem exponentDigits_of_le {exponent : ℕ} (h : 10 ≤ exponent) :
    exponentDigits 2 exponent = exponentDigits 1 exponent := by
  have hlen : 2 ≤ (digitsOf exponent).length := by
    by_contra hlt
    have := (Nat.length_toDigits_le_iff (b := 10) (n := exponent) (k := 1) (by omega)
      (by omega)).mp (by unfold digitsOf at hlt; omega)
    omega
  unfold exponentDigits
  rw [show 2 - (digitsOf exponent).length = 0 by omega,
    show 1 - (digitsOf exponent).length = 0 by omega]

/-- An exponent of one digit has two. -/
theorem exponentDigits_of_lt {exponent : ℕ} (h : exponent < 10) :
    exponentDigits 2 exponent ≠ exponentDigits 1 exponent := by
  have hlen : (digitsOf exponent).length = 1 := by
    unfold digitsOf
    rw [Nat.toDigits_of_lt_base h]
    rfl
  intro heq
  have := congrArg List.length heq
  simp only [exponentDigits, zeros, List.length_append, List.length_replicate, hlen] at this
  omega

theorem scientific_inj {digits : List Char} {point : ℤ} :
    scientific 2 digits point = scientific 1 digits point ↔
      10 ≤ (point - 1).natAbs := by
  have hcancel : scientific 2 digits point = scientific 1 digits point ↔
      exponentDigits 2 (point - 1).natAbs = exponentDigits 1 (point - 1).natAbs := by
    simp only [scientific, List.append_cancel_left_eq, List.cons.injEq, true_and]
  rw [hcancel]
  constructor
  · intro heq
    by_contra hlt
    exact exponentDigits_of_lt (not_le.mp hlt) heq
  · exact exponentDigits_of_le

/-- The two rules by the place of the decimal point. -/
theorem pythonNumber_eq_iff {digits : List Char} (hdigits : ∀ c ∈ digits, c.isDigit)
    (hlength : 0 < digits.length) (hshort : digits.length ≤ 17) (point : ℤ) :
    pythonNumber digits point = ecmaNumber digits point ↔
      point ≤ -9 ∨ (-3 ≤ point ∧ point < digits.length) ∨ 22 ≤ point := by
  unfold pythonNumber ecmaNumber
  by_cases hfixed : -4 < point ∧ point ≤ 16
  · rw [if_pos hfixed]
    by_cases hneg : point ≤ 0
    · -- `0.000ddd` in both
      rw [if_pos hneg, if_neg (by omega), if_neg (by omega), if_pos (by omega)]
      simp only [true_iff]
      omega
    · rw [if_neg hneg]
      by_cases hmixed : point < digits.length
      · rw [if_pos hmixed, if_neg (by omega), if_pos (by omega)]
        simp only [true_iff]
        omega
      · -- Python writes `.0` behind an integer
        rw [if_neg hmixed, if_pos (by omega)]
        have hne : whole digits point ++ ['.', '0'] ≠ whole digits point := by
          intro heq
          have := congrArg List.length heq
          simp at this
        simp only [hne, false_iff]
        omega
  · rw [if_neg hfixed]
    -- the exponents between which the second format writes all digits
    by_cases hwhole : digits.length ≤ point ∧ point ≤ 21
    · rw [if_pos hwhole]
      have hne : scientific 2 digits point ≠ whole digits point := by
        intro heq
        have he := heq ▸ e_mem_scientific 2 digits point
        exact absurd (isDigit_of_mem_whole hdigits he) (by decide)
      simp only [hne, false_iff]
      omega
    · rw [if_neg hwhole, if_neg (by omega)]
      by_cases hfraction : -6 < point ∧ point ≤ 0
      · rw [if_pos hfraction]
        have hne : scientific 2 digits point ≠ fraction digits point := by
          intro heq
          exact ne_e_of_mem_fraction hdigits (heq ▸ e_mem_scientific 2 digits point)
        simp only [hne, false_iff]
        omega
      · rw [if_neg hfraction, scientific_inj]
        omega

/-- The numbers with one text under both rules: those below `10⁻⁹`, the fractions from `10⁻⁴` on
and those from `10²¹` on. -/
def OneText (x : ℚ) : Prop :=
  x ≠ 0 ∧ (|x| < 10 ^ (-9 : ℤ) ∨ (10 ^ (-4 : ℤ) ≤ |x| ∧ ¬ ∃ m : ℤ, |x| = m) ∨ 10 ^ (21 : ℤ) ≤ |x|)

theorem JsonFloat.abs_value (negative : Bool) (d : ShortestDecimal) :
    |(JsonFloat.nonzero negative d).value| = d.value := by
  cases negative with
  | false => exact abs_of_pos d.value_pos
  | true => exact (abs_neg d.value).trans (abs_of_pos d.value_pos)

/-- `repr` and `Number::toString` agree on a double exactly when it has one text. -/
theorem pythonFloat_eq_ecmaFloat_iff (x : JsonFloat) :
    pythonFloat x = ecmaFloat x ↔ OneText x.value := by
  cases x with
  | zero negative =>
    cases negative <;> simp [pythonFloat, ecmaFloat, signed, OneText, JsonFloat.value]
  | nonzero negative d =>
    have hpos := d.value_pos
    have hne : (JsonFloat.nonzero negative d).value ≠ 0 := by
      rw [← abs_pos, JsonFloat.abs_value]
      exact hpos
    unfold OneText
    rw [JsonFloat.abs_value, d.value_lt_iff, d.le_value_iff, d.le_value_iff, d.value_isInt_iff]
    rw [show pythonFloat (.nonzero negative d) =
      signed negative (pythonNumber (digitsOf d.significand) d.point) from rfl]
    rw [show ecmaFloat (.nonzero negative d) =
      signed negative (ecmaNumber (digitsOf d.significand) d.point) from rfl]
    rw [signed_inj, pythonNumber_eq_iff (fun c => isDigit_of_mem_digitsOf) d.length_pos d.length_le]
    have hlength : ((digitsOf d.significand).length : ℤ) = d.length := rfl
    rw [hlength]
    simp only [ne_eq, hne, not_false_eq_true, true_and]
    omega

/-! ### Integers -/

/-- `int.__repr__`. -/
def pythonInteger (n : ℤ) : List Char :=
  signed (n < 0) (digitsOf n.natAbs)

/-- A positive number without the zeros at its end. -/
def withoutZeros (m : ℕ) : ℕ :=
  if 0 < m ∧ 10 ∣ m then withoutZeros (m / 10) else m
  termination_by m
  decreasing_by omega

/-- `Number::toString` of an integer that a double holds: its shortest decimal has the digits of the
integer up to the last that is not zero. -/
def ecmaInteger (n : ℤ) : List Char :=
  if n = 0 then ['0']
  else signed (n < 0)
    (ecmaNumber (digitsOf (withoutZeros n.natAbs)) (digitsOf n.natAbs).length)

/-- The digits are those without the zeros, and the zeros. -/
theorem digitsOf_eq {m : ℕ} (h : 0 < m) :
    digitsOf m = digitsOf (withoutZeros m) ++
      zeros ((digitsOf m).length - (digitsOf (withoutZeros m)).length) ∧
    (digitsOf (withoutZeros m)).length ≤ (digitsOf m).length := by
  induction m using withoutZeros.induct with
  | case1 m hm ih =>
    obtain ⟨heq, hle⟩ := ih (Nat.div_pos (Nat.le_of_dvd hm.1 hm.2) (by omega))
    have hstep : digitsOf m = digitsOf (m / 10) ++ ['0'] := by
      unfold digitsOf
      rw [Nat.toDigits_of_base_le (by omega) (Nat.le_of_dvd hm.1 hm.2),
        Nat.mod_eq_zero_of_dvd hm.2]
      rfl
    rw [withoutZeros, if_pos hm]
    have hlength : (digitsOf m).length = (digitsOf (m / 10)).length + 1 := by
      rw [hstep]
      simp
    refine ⟨?_, by omega⟩
    rw [hlength, show (digitsOf (m / 10)).length + 1 - (digitsOf (withoutZeros (m / 10))).length
      = ((digitsOf (m / 10)).length - (digitsOf (withoutZeros (m / 10))).length) + 1 by omega]
    calc digitsOf m = digitsOf (m / 10) ++ ['0'] := hstep
      _ = digitsOf (withoutZeros (m / 10)) ++
          zeros ((digitsOf (m / 10)).length - (digitsOf (withoutZeros (m / 10))).length) ++
          ['0'] := by rw [← heq]
      _ = _ := by
          rw [List.append_assoc]
          congr 1
          exact (List.replicate_succ').symm
  | case2 m hm =>
    rw [withoutZeros, if_neg hm]
    simp [zeros]

/-- Integers below `10²¹` have their plain digits. -/
theorem ecmaInteger_eq {n : ℤ} (h : n.natAbs < 10 ^ 21) : ecmaInteger n = pythonInteger n := by
  unfold ecmaInteger pythonInteger
  by_cases hzero : n = 0
  · rw [if_pos hzero, hzero]
    rfl
  · rw [if_neg hzero]
    congr 1
    obtain ⟨heq, hle⟩ := digitsOf_eq (Int.natAbs_pos.mpr hzero)
    have hshort : (digitsOf n.natAbs).length ≤ 21 :=
      (Nat.length_toDigits_le_iff (by omega) (by omega)).mpr h
    unfold ecmaNumber
    rw [if_pos ⟨by exact_mod_cast hle, by exact_mod_cast hshort⟩]
    exact heq.symm

theorem numberChar_pythonInteger {n : ℤ} {c : Char} (h : c ∈ pythonInteger n) : NumberChar c :=
  numberChar_signed (fun _ h => .inl (isDigit_of_mem_digitsOf h)) h

theorem numberChar_ecmaInteger {n : ℤ} {c : Char} (h : c ∈ ecmaInteger n) : NumberChar c := by
  unfold ecmaInteger at h
  split_ifs at h
  · rw [show c = '0' from List.mem_singleton.mp h]
    exact .inl (by decide)
  · exact numberChar_signed (fun c h => numberChar_ecmaNumber
      (fun c h => isDigit_of_mem_digitsOf h) h) h

end Library.DecimalText
