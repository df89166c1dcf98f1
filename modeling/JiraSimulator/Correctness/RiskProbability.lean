import JiraSimulator.Domain.RiskFormula
import JiraSimulator.Correctness.Scripts

/-!
# The probability of a risk

The formula raises when a coefficient is not a number, or when the exponential function overflows on
a logit far below zero; otherwise it gives a number within the clamp.  Exact arithmetic moves with
every factor in the direction of its coefficient, and gives the base probability without factors.

Main results:
* `risk_probability` : the rules and factors for which the formula does what it should;
* `risk_probability_size` : a rule with one positive coefficient;
* `availability_overflow` : a coefficient of minus eight hundred.
-/

namespace JiraSimulator

open Library.Binary64 Library.Outcome

variable {p : Platform}

/-! ### Where the formula is defined -/

/-- A base at a bound; or coefficients that are numbers, and a logit whose exponential does not
overflow. -/
def ProbabilityDefined (p : Platform) (rule : RiskRule) (factors : List (String × ℚ)) : Prop :=
  rule.baseProbability ≤ 0 ∨ 1 ≤ rule.baseProbability ∨
    ((∀ entry ∈ rule.coefficients, ∃ value, floatOfScalar p entry.2 = .ok value) ∧
      ∀ logit, logitOf p rule factors = .ok logit → ∃ power, mathExp p logit.neg = .ok power)

/-- The odds of a base between zero and one are defined. -/
theorem exists_odds {base : ℚ} (hlt : base < 1) : ∃ odds, fdiv base (fsub 1 base) = .ok odds := by
  have hpos : 0 < 1 - base := by linarith
  have hne : fsub 1 base ≠ 0 := by
    intro hzero
    have hnear := abs_le.mp (Library.Rounding.abs_roundToPrecision_sub_le (p := 53) hpos.le)
    have hsub : Library.Rounding.roundToPrecision 53 (1 - base) = 0 := hzero
    rw [hsub] at hnear
    have hsmall : (1 - base) / 2 ^ 53 < 1 - base := by
      rw [div_lt_iff₀ (by positivity)]
      linarith [mul_lt_mul_of_pos_left (show (1 : ℚ) < 2 ^ 53 by norm_num) hpos]
    linarith [hnear.1]
  exact ⟨_, if_neg hne⟩

/-- The logit is defined for numeric coefficients. -/
theorem logitOf_iff {rule : RiskRule} {factors : List (String × ℚ)}
    (hlt : rule.baseProbability < 1) :
    (∃ logit, logitOf p rule factors = .ok logit) ↔
      ∀ entry ∈ rule.coefficients, ∃ value, floatOfScalar p entry.2 = .ok value := by
  obtain ⟨odds, hodds⟩ := exists_odds hlt
  constructor
  · rintro ⟨logit, h⟩ entry hentry
    simp only [logitOf, hodds, ok_bind, bind_eq_ok] at h
    obtain ⟨terms, hterms, -⟩ := h
    obtain ⟨term, -, hterm⟩ := exists_of_mem_of_mapM hterms hentry
    simp only [bind_eq_ok] at hterm
    obtain ⟨value, hvalue, -⟩ := hterm
    exact ⟨value, hvalue⟩
  · intro h
    obtain ⟨terms, hterms⟩ : ∃ terms, (rule.coefficients.mapM fun entry => do
        let value ← floatOfScalar p entry.2
        return value.mul (.finite (factor factors entry.1))) = .ok terms := by
      refine exists_mapM_eq_ok fun entry hentry => ?_
      obtain ⟨value, hvalue⟩ := h entry hentry
      exact ⟨_, by rw [hvalue, ok_bind]; rfl⟩
    exact ⟨_, by simp only [logitOf, hodds, ok_bind, hterms]; rfl⟩

/-- The exponential function has no negative values. -/
def ExpNonneg (p : Platform) : Prop :=
  ∀ value power, p.exp value = some power → 0 ≤ power

theorem mathExp_nonneg (hexp : ExpNonneg p) {x power : Double} (h : mathExp p x = .ok power) :
    ∀ value, power = .finite value → 0 ≤ value := by
  rintro value rfl
  cases x with
  | finite number =>
    simp only [mathExp] at h
    cases hpower : p.exp number with
    | none =>
      rw [hpower] at h
      cases h
    | some result =>
      rw [hpower] at h
      cases h
      exact hexp number _ hpower
  | infinity negative =>
    cases negative with
    | true =>
      cases h
      exact le_rfl
    | false => cases h
  | nan => cases h

theorem probabilityOf_iff (hexp : ExpNonneg p) {rule : RiskRule} {factors : List (String × ℚ)} :
    (∃ value, probabilityOf p rule factors = .ok value) ↔ ProbabilityDefined p rule factors := by
  unfold probabilityOf ProbabilityDefined
  by_cases hzero : rule.baseProbability ≤ 0
  · rw [if_pos hzero]
    exact ⟨fun _ => .inl hzero, fun _ => ⟨_, rfl⟩⟩
  rw [if_neg hzero]
  by_cases hone : 1 ≤ rule.baseProbability
  · rw [if_pos hone]
    exact ⟨fun _ => .inr (.inl hone), fun _ => ⟨_, rfl⟩⟩
  rw [if_neg hone]
  have hlt : rule.baseProbability < 1 := not_le.mp hone
  constructor
  · rintro ⟨value, h⟩
    simp only [logisticProbability, bind_eq_ok] at h
    obtain ⟨probability, ⟨logit, hlogit, power, hpower, -⟩, -⟩ := h
    refine .inr (.inr ⟨(logitOf_iff hlt).mp ⟨logit, hlogit⟩, fun other hother => ?_⟩)
    rw [hlogit] at hother
    cases hother
    exact ⟨power, hpower⟩
  · rintro (h | h | ⟨hcoefficients, hpower⟩)
    · exact absurd h hzero
    · exact absurd h hone
    obtain ⟨logit, hlogit⟩ : ∃ logit, logitOf p rule factors = .ok logit :=
      (logitOf_iff hlt).mpr hcoefficients
    obtain ⟨power, hpower⟩ := hpower logit hlogit
    have hdiv : floatDiv (.finite 1) ((Double.finite 1).add power) =
        .ok ((Double.finite 1).div ((Double.finite 1).add power)) :=
      if_neg (one_add_ne_zero (mathExp_nonneg hexp hpower))
    exact ⟨_, by simp only [logisticProbability, hlogit, hpower, hdiv, ok_bind]; rfl⟩

/-- A clamped probability lies within an ordered clamp. -/
theorem clampProbability_mem {clamp : ProbabilityClamp} (h : clamp.min ≤ clamp.max) (x : Double) :
    clamp.min ≤ clampProbability clamp x ∧ clampProbability clamp x ≤ clamp.max := by
  unfold clampProbability
  split
  · exact ⟨le_min h (le_max_left _ _), min_le_left _ _⟩
  · exact ⟨le_min h le_rfl, min_le_left _ _⟩
  · exact ⟨h, le_rfl⟩
  · exact ⟨le_min h le_rfl, min_le_left _ _⟩

theorem probabilityOf_mem {rule : RiskRule} {factors : List (String × ℚ)} {value : ℚ}
    (hclamp : rule.clamp.min ≤ rule.clamp.max) (h : probabilityOf p rule factors = .ok value) :
    rule.clamp.min ≤ value ∧ value ≤ rule.clamp.max := by
  have hclamped : ∃ probability, clampProbability rule.clamp probability = value := by
    unfold probabilityOf at h
    split_ifs at h
    · exact ⟨_, Except.ok.inj h⟩
    · exact ⟨_, Except.ok.inj h⟩
    · simp only [bind_eq_ok, pure_eq_ok] at h
      obtain ⟨probability, -, hvalue⟩ := h
      exact ⟨probability, hvalue⟩
  obtain ⟨probability, rfl⟩ := hclamped
  exact clampProbability_mem hclamp probability

/-! ### Exact arithmetic -/

open LogisticArithmetic

/-- The exact probability of a rule. -/
noncomputable def exactProbability (p : Platform) (rule : RiskRule) (factors : String → ℝ) :
    Result ℝ :=
  (reals p).probability rule factors

/-- The products of coefficients that are not negative at `key` grow with the factor of `key`. -/
theorem sum_terms_le {coefficients : List (String × JsonScalar)} {f g : String → ℝ} {key : String}
    (hsame : ∀ other, other ≠ key → f other = g other) (hle : f key ≤ g key)
    (hsign : ∀ scalar, (key, scalar) ∈ coefficients →
      ∀ value, (reals p).coefficient scalar = .ok value → 0 ≤ value)
    {ts us : List ℝ} (hts : (reals p).terms coefficients f = .ok ts)
    (hus : (reals p).terms coefficients g = .ok us) : ts.sum ≤ us.sum := by
  induction coefficients generalizing ts us with
  | nil =>
    cases hts
    cases hus
    exact le_rfl
  | cons entry coefficients ih =>
    simp only [terms, List.mapM_cons, bind_eq_ok, pure_eq_ok] at hts hus
    obtain ⟨t, ⟨value, hvalue, rfl⟩, ts, hts, rfl⟩ := hts
    obtain ⟨u, ⟨value', hvalue', rfl⟩, us, hus, rfl⟩ := hus
    rw [hvalue] at hvalue'
    cases hvalue'
    have hrest := ih (fun scalar hmem => hsign scalar (List.mem_cons_of_mem _ hmem)) hts hus
    have hterm : value * f entry.1 ≤ value * g entry.1 := by
      by_cases hkey : entry.1 = key
      · rw [hkey]
        refine mul_le_mul_of_nonneg_left hle (hsign entry.2 ?_ value hvalue)
        rw [← hkey]
        exact List.mem_cons_self
      · rw [hsame entry.1 hkey]
    rw [List.sum_cons, List.sum_cons]
    exact add_le_add hterm hrest

/-- The same for coefficients that are not positive. -/
theorem sum_terms_ge {coefficients : List (String × JsonScalar)} {f g : String → ℝ} {key : String}
    (hsame : ∀ other, other ≠ key → f other = g other) (hle : f key ≤ g key)
    (hsign : ∀ scalar, (key, scalar) ∈ coefficients →
      ∀ value, (reals p).coefficient scalar = .ok value → value ≤ 0)
    {ts us : List ℝ} (hts : (reals p).terms coefficients f = .ok ts)
    (hus : (reals p).terms coefficients g = .ok us) : us.sum ≤ ts.sum := by
  induction coefficients generalizing ts us with
  | nil =>
    cases hts
    cases hus
    exact le_rfl
  | cons entry coefficients ih =>
    simp only [terms, List.mapM_cons, bind_eq_ok, pure_eq_ok] at hts hus
    obtain ⟨t, ⟨value, hvalue, rfl⟩, ts, hts, rfl⟩ := hts
    obtain ⟨u, ⟨value', hvalue', rfl⟩, us, hus, rfl⟩ := hus
    rw [hvalue] at hvalue'
    cases hvalue'
    have hrest := ih (fun scalar hmem => hsign scalar (List.mem_cons_of_mem _ hmem)) hts hus
    have hterm : value * g entry.1 ≤ value * f entry.1 := by
      by_cases hkey : entry.1 = key
      · rw [hkey]
        refine mul_le_mul_of_nonpos_left hle (hsign entry.2 ?_ value hvalue)
        rw [← hkey]
        exact List.mem_cons_self
      · rw [hsame entry.1 hkey]
    rw [List.sum_cons, List.sum_cons]
    exact add_le_add hterm hrest

/-- The products vanish without factors. -/
theorem sum_terms_zero {coefficients : List (String × JsonScalar)} {f : String → ℝ}
    (hzero : ∀ key, f key = 0) {ts : List ℝ} (hts : (reals p).terms coefficients f = .ok ts) :
    ts.sum = 0 := by
  induction coefficients generalizing ts with
  | nil =>
    cases hts
    rfl
  | cons entry coefficients ih =>
    simp only [terms, List.mapM_cons, bind_eq_ok, pure_eq_ok] at hts
    obtain ⟨t, ⟨value, hvalue, rfl⟩, ts, hts, rfl⟩ := hts
    rw [List.sum_cons, ih hts, hzero]
    exact (congrArg (· + 0) (mul_zero value)).trans (add_zero 0)

/-- The logistic function grows. -/
theorem logistic_mono {x y : ℝ} (h : x ≤ y) :
    1 / (1 + Real.exp (-x)) ≤ 1 / (1 + Real.exp (-y)) := by
  have hx := Real.exp_pos (-x)
  have hy := Real.exp_pos (-y)
  have hexp : Real.exp (-y) ≤ Real.exp (-x) := Real.exp_le_exp.mpr (by linarith)
  apply one_div_le_one_div_of_le <;> linarith

/-- The logistic function is the inverse of the log odds. -/
theorem logistic_logOdds {base : ℝ} (hpos : 0 < base) (hlt : base < 1) :
    1 / (1 + Real.exp (-Real.log (base / (1 - base)))) = base := by
  have hodds : 0 < base / (1 - base) := div_pos hpos (by linarith)
  rw [Real.exp_neg, Real.exp_log hodds, inv_div]
  have hbase : base ≠ 0 := hpos.ne'
  field_simp
  ring

/-- What a probability between the bounds of the base is made of. -/
theorem exactProbability_eq_ok {rule : RiskRule} {factors : String → ℝ} {value : ℝ}
    (h : exactProbability p rule factors = .ok value) :
    (rule.baseProbability ≤ 0 ∧ value = min (rule.clamp.max : ℝ) (max rule.clamp.min 0)) ∨
    (1 ≤ rule.baseProbability ∧ value = min (rule.clamp.max : ℝ) (max rule.clamp.min 1)) ∨
    ((0 < rule.baseProbability ∧ rule.baseProbability < 1) ∧ ∃ ts,
      (reals p).terms rule.coefficients factors = .ok ts ∧
      value = min (rule.clamp.max : ℝ) (max rule.clamp.min (1 / (1 + Real.exp
        (-(Real.log (rule.baseProbability / (1 - rule.baseProbability)) + ts.sum)))))) := by
  simp only [exactProbability, probability, unclamped, bind_eq_ok, pure_eq_ok] at h
  obtain ⟨probability, hprobability, rfl⟩ := h
  by_cases hzero : rule.baseProbability ≤ 0
  · rw [if_pos hzero] at hprobability
    rw [← Except.ok.inj hprobability]
    exact .inl ⟨hzero, by simp [reals]⟩
  rw [if_neg hzero] at hprobability
  by_cases hone : 1 ≤ rule.baseProbability
  · rw [if_pos hone] at hprobability
    rw [← Except.ok.inj hprobability]
    -- a base of one is not a base of zero
    exact .inr (.inl ⟨hone, by simp [reals]⟩)
  rw [if_neg hone] at hprobability
  simp only [bind_eq_ok] at hprobability
  obtain ⟨odds, hodds, ts, hts, hvalue⟩ := hprobability
  rw [← Except.ok.inj hvalue]
  refine .inr (.inr ⟨⟨not_le.mp hzero, not_le.mp hone⟩, ts, hts, ?_⟩)
  rw [← Except.ok.inj hodds]
  rfl

/-- The exact probability moves with a factor in the direction of its coefficient. -/
def FollowsFactors (p : Platform) (rule : RiskRule) : Prop :=
  ∀ (f g : String → ℝ) (key : String) (v w : ℝ),
    (∀ other, other ≠ key → f other = g other) → f key ≤ g key →
    exactProbability p rule f = .ok v → exactProbability p rule g = .ok w →
    ((∀ scalar, (key, scalar) ∈ rule.coefficients →
        ∀ value, (reals p).coefficient scalar = .ok value → 0 ≤ value) → v ≤ w) ∧
    ((∀ scalar, (key, scalar) ∈ rule.coefficients →
        ∀ value, (reals p).coefficient scalar = .ok value → value ≤ 0) → w ≤ v)

theorem followsFactors (rule : RiskRule) : FollowsFactors p rule := by
  intro f g key v w hsame hle hf hg
  rcases exactProbability_eq_ok hf with
    ⟨hzero, hv⟩ | ⟨hone, hv⟩ | ⟨⟨hpos, hlt⟩, ts, hts, hv⟩
  · rcases exactProbability_eq_ok hg with ⟨-, hw⟩ | ⟨hone, -⟩ | ⟨⟨hpos, -⟩, -⟩
    · exact ⟨fun _ => (hv.trans hw.symm).le, fun _ => (hw.trans hv.symm).le⟩
    · linarith
    · linarith
  · rcases exactProbability_eq_ok hg with ⟨hzero, -⟩ | ⟨-, hw⟩ | ⟨⟨-, hlt⟩, -⟩
    · linarith
    · exact ⟨fun _ => (hv.trans hw.symm).le, fun _ => (hw.trans hv.symm).le⟩
    · linarith
  · rcases exactProbability_eq_ok hg with ⟨hzero, -⟩ | ⟨hone, -⟩ | ⟨-, us, hus, hw⟩
    · linarith
    · linarith
    · rw [hv, hw]
      constructor
      · intro hsign
        have hsum := sum_terms_le hsame hle hsign hts hus
        exact min_le_min_left _ (max_le_max_left _ (logistic_mono (by linarith)))
      · intro hsign
        have hsum := sum_terms_ge hsame hle hsign hts hus
        exact min_le_min_left _ (max_le_max_left _ (logistic_mono (by linarith)))

/-- Without factors the exact probability is the clamped base. -/
def BaseWithoutFactors (p : Platform) (rule : RiskRule) : Prop :=
  ∀ (f : String → ℝ) (v : ℝ), (∀ key, f key = 0) → exactProbability p rule f = .ok v →
    v = min (rule.clamp.max : ℝ) (max rule.clamp.min rule.baseProbability)

theorem baseWithoutFactors {rule : RiskRule}
    (hbase : 0 ≤ rule.baseProbability ∧ rule.baseProbability ≤ 1) :
    BaseWithoutFactors p rule := by
  intro f v hfactors hv
  rcases exactProbability_eq_ok hv with ⟨hzero, hv⟩ | ⟨hone, hv⟩ | ⟨⟨hpos, hlt⟩, ts, hts, hv⟩
  · rw [hv, le_antisymm hzero hbase.1, Rat.cast_zero]
  · rw [hv, le_antisymm hbase.2 hone, Rat.cast_one]
  · rw [hv, sum_terms_zero hfactors hts, add_zero,
      logistic_logOdds (by exact_mod_cast hpos) (by exact_mod_cast hlt)]

/-! ### Accepted rules -/

/-- What the blueprint validators check of the probabilities of a rule. -/
theorem accepted_bounds {rule : RiskRule} (h : rule.validate = .ok ()) :
    (0 ≤ rule.baseProbability ∧ rule.baseProbability ≤ 1) ∧ rule.clamp.min ≤ rule.clamp.max := by
  simp only [RiskRule.validate, requireProbability, requireField, require, bind_unit_eq_ok,
    check_eq_ok] at h
  exact ⟨h.1, h.2.2.2.1⟩

/-- The formula of an accepted rule gives a probability within the clamp, one that in exact
arithmetic follows the factors and is the base without them, exactly where it is defined. -/
theorem risk_probability (p : Platform) (hexp : ExpNonneg p) (rule : RiskRule)
    (haccepted : rule.validate = .ok ()) (factors : List (String × ℚ)) :
    ((∃ value, probabilityOf p rule factors = .ok value ∧ rule.clamp.min ≤ value ∧
        value ≤ rule.clamp.max) ∧ FollowsFactors p rule ∧ BaseWithoutFactors p rule) ↔
      ProbabilityDefined p rule factors := by
  obtain ⟨hbase, hclamp⟩ := accepted_bounds haccepted
  rw [← probabilityOf_iff hexp]
  constructor
  · rintro ⟨⟨value, h, -⟩, -⟩
    exact ⟨value, h⟩
  · rintro ⟨value, h⟩
    exact ⟨⟨value, h, probabilityOf_mem hclamp h⟩, followsFactors rule, baseWithoutFactors hbase⟩

/-- A platform with the exponential function on the arguments of the two rules below: its value at
minus one, and an overflow beyond seven hundred and nine. -/
def samplePlatform : Platform :=
  { utcPlatform with
    exp := fun value =>
      if 709 < value then none
      else if value = -1 then some (828390857088487 / 2251799813685248)
      else some 0 }

theorem samplePlatform_expNonneg : ExpNonneg samplePlatform := by
  intro value power h
  simp only [samplePlatform] at h
  split_ifs at h
  · rw [← Option.some.inj h]
    norm_num
  · rw [← Option.some.inj h]

/-- A rule with one coefficient and a base of one half. -/
def ruleWith (key : String) (coefficient : JsonScalar) : RiskRule where
  key := "EXTERNAL_DEPENDENCY"
  trigger := "STATUS_ENTERED"
  baseProbability := 1 / 2
  coefficients := [(key, coefficient)]
  clamp := ⟨0, 1⟩
  mechanicalParameters := [("duration_days", .int 1)]

/-- A rule that becomes likelier with the size of the item. -/
theorem risk_probability_size :
    (∃ value, probabilityOf samplePlatform (ruleWith "size" (.int 1)) [("size", 1)] = .ok value ∧
        0 ≤ value ∧ value ≤ 1) ∧
      FollowsFactors samplePlatform (ruleWith "size" (.int 1)) ∧
      BaseWithoutFactors samplePlatform (ruleWith "size" (.int 1)) := by
  refine (risk_probability samplePlatform samplePlatform_expNonneg (ruleWith "size" (.int 1))
    (by decide +kernel) [("size", 1)]).mpr (.inr (.inr ⟨?_, ?_⟩))
  · intro entry hentry
    rw [List.mem_singleton.mp hentry]
    exact ⟨.finite 1, by decide +kernel⟩
  · intro logit hlogit
    have hone : logitOf samplePlatform (ruleWith "size" (.int 1)) [("size", 1)] =
        .ok (.finite 1) := by decide +kernel
    rw [hone] at hlogit
    cases hlogit
    exact ⟨.finite (828390857088487 / 2251799813685248), by decide +kernel⟩

/-- With a coefficient of minus eight hundred the probability of an owned item overflows. -/
theorem availability_overflow :
    ¬ ∃ value, probabilityOf samplePlatform (ruleWith "availability" (.float (-800)))
      [("availability", 1)] = .ok value := by
  have hraises : probabilityOf samplePlatform (ruleWith "availability" (.float (-800)))
      [("availability", 1)] = .error .overflowError := by decide +kernel
  rw [hraises]
  rintro ⟨value, h⟩
  cases h

end JiraSimulator
