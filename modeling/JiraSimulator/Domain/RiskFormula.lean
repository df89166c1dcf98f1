import Mathlib.Analysis.SpecialFunctions.Log.Basic
import JiraSimulator.Domain.Risks

/-!
# The risk probability over any arithmetic

The logistic probability is written once more with the numbers and their operations as a parameter.
In the arithmetic of doubles it is the probability of the code, and in the arithmetic of the real
numbers it is what this probability rounds.

* `LogisticArithmetic.doubles_probability`: the probability of the code is that of its doubles.
-/

namespace JiraSimulator

open Library.Binary64 Library.Outcome

/-- Numbers with the operations of the logistic formula. -/
structure LogisticArithmetic (α : Type) where
  /-- A constant of the source. -/
  literal : ℚ → α
  /-- `float(value)` of a coefficient. -/
  coefficient : JsonScalar → Result α
  mul : α → α → α
  add : α → α → α
  sum : List α → α
  /-- `math.log(base / (1 - base))`. -/
  logOdds : ℚ → Result α
  /-- `1 / (1 + math.exp(-logit))`. -/
  logistic : α → Result α
  clamped : ProbabilityClamp → α → α

namespace LogisticArithmetic

/-- The doubles, whose operations round and whose exponential function may overflow. -/
def doubles (p : Platform) : LogisticArithmetic Double where
  literal := .finite
  coefficient := floatOfScalar p
  mul := Double.mul
  add := Double.add
  sum := Double.sum
  logOdds base := do
    let odds ← fdiv base (fsub 1 base)
    return .finite (p.log odds)
  logistic logit := do
    let power ← mathExp p logit.neg
    floatDiv (.finite 1) ((Double.finite 1).add power)
  clamped clamp probability := .finite (clampProbability clamp probability)

/-- The real numbers, whose operations are exact; an infinite or undefined coefficient is none. -/
noncomputable def reals (p : Platform) : LogisticArithmetic ℝ where
  literal value := value
  coefficient scalar := do
    match ← floatOfScalar p scalar with
    | .finite value => return (value : ℝ)
    | _ => .error (.valueError "coefficient must be finite")
  mul a b := a * b
  add a b := a + b
  sum terms := terms.sum
  logOdds base := .ok (Real.log (base / (1 - base)))
  logistic logit := .ok (1 / (1 + Real.exp (-logit)))
  clamped clamp probability := min clamp.max (max clamp.min probability)

variable {α : Type} (a : LogisticArithmetic α)

/-- The products of the coefficients and their factors. -/
def terms (coefficients : List (String × JsonScalar)) (factors : String → α) : Result (List α) :=
  coefficients.mapM fun entry => do
    let value ← a.coefficient entry.2
    return a.mul value (factors entry.1)

/-- The probability of a rule before its clamp. -/
def unclamped (rule : RiskRule) (factors : String → α) : Result α :=
  if rule.baseProbability ≤ 0 then .ok (a.literal 0)
  else if 1 ≤ rule.baseProbability then .ok (a.literal 1)
  else do
    let odds ← a.logOdds rule.baseProbability
    let terms ← a.terms rule.coefficients factors
    a.logistic (a.add odds (a.sum terms))

/-- The probability of a rule. -/
def probability (rule : RiskRule) (factors : String → α) : Result α := do
  let value ← a.unclamped rule factors
  return a.clamped rule.clamp value

/-- The probability of the code is that of its doubles. -/
theorem doubles_probability (p : Platform) (rule : RiskRule) (factors : List (String × ℚ)) :
    (doubles p).probability rule (fun key => .finite (factor factors key)) =
      Double.finite <$> probabilityOf p rule factors := by
  unfold probability unclamped probabilityOf
  by_cases hzero : rule.baseProbability ≤ 0
  · rw [if_pos hzero, if_pos hzero]
    rfl
  rw [if_neg hzero, if_neg hzero]
  by_cases hone : 1 ≤ rule.baseProbability
  · rw [if_pos hone, if_pos hone]
    rfl
  rw [if_neg hone, if_neg hone]
  simp only [logisticProbability, logitOf, doubles, terms, bind_assoc, pure_bind, map_bind]
  rfl

end LogisticArithmetic

end JiraSimulator
