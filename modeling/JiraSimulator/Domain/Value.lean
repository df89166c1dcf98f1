import JiraSimulator.Library.Outcome
import JiraSimulator.Library.Ordering
import JiraSimulator.Library.Rounding

/-!
# Values shared by the domain

* Failures: `PyError` has one constructor for each kind of exception the code can raise, with the
  text of the exceptions whose text the code chooses.
* Instants are microseconds since the Unix epoch in UTC, dates are days since it, and durations are
  microseconds.  `addDuration` keeps the supported `datetime` range.
* Doubles are rationals, rounded to 53 significant bits by every operation (`fmul`, `fadd`, …).
  Overflow to infinity and subnormal numbers lie outside the validated ranges of the domain and are
  not represented.
-/

namespace JiraSimulator

/-! ### Failures -/

/-- The exceptions raised by the code. -/
inductive PyError where
  | valueError (message : String)
  | typeError (message : String)
  | runtimeError (message : String)
  | validationError (field : String)
  | keyError
  | attributeError
  | jsonDecodeError
  | indexError
  | stopIteration
  | overflowError
  | zeroDivisionError
  | staleRuntimeVersion (message : String)
  | semanticDeduplicationConflict
  | scrumStateConflict (message : String)
  | counterClaimStale (message : String)
  | naturalClaimConflict (message : String)
  | lookupError (message : String)
  | integrityError (constraint : String)
  deriving DecidableEq, Repr

/-- A computation that may raise. -/
abbrev Result (α : Type) := Except PyError α

open Library.Outcome in
/-- Raise a `ValueError` with the given text unless the condition holds. -/
def require (condition : Prop) [Decidable condition] (message : String) : Result Unit :=
  check condition (.valueError message)

/-- `next(item for item in items if holds(item))`. -/
def next {α : Type} (holds : α → Bool) (items : List α) : Result α :=
  match items.find? holds with
  | some item => .ok item
  | none => .error .stopIteration

/-- `table[key]` for a dictionary from keys to the rows that carry them. -/
def getItem {α κ : Type} [DecidableEq κ] (key : α → κ) (rows : List α) (k : κ) : Result α :=
  match rows.find? (fun row => key row = k) with
  | some row => .ok row
  | none => .error .keyError

/-- `items[index]` for a non-negative index. -/
def getIndex {α : Type} (items : List α) (index : ℕ) : Result α :=
  match items[index]? with
  | some item => .ok item
  | none => .error .indexError

/-! ### Instants and dates -/

def microsecondsPerDay : ℤ := 86400000000

/-- `datetime.min`, 0001-01-01T00:00:00. -/
def minInstant : ℤ := -719162 * microsecondsPerDay

/-- `datetime.max`, 9999-12-31T23:59:59.999999. -/
def maxInstant : ℤ := 2932897 * microsecondsPerDay - 1

/-- `value + timedelta(microseconds=duration)`. -/
def addDuration (value : ℤ) (duration : ℤ) : Result ℤ :=
  if minInstant ≤ value + duration ∧ value + duration ≤ maxInstant then .ok (value + duration)
  else .error .overflowError

/-- `value.date()` of an instant read as wall-clock time. -/
def dateOf (value : ℤ) : ℤ :=
  value / microsecondsPerDay

/-- `date.max`. -/
def maxDate : ℤ := dateOf maxInstant

/-- The check of `day += timedelta(days=1)`: no date follows the last one. -/
def stepDay (day : ℤ) : Result Unit :=
  Library.Outcome.check (day ≠ maxDate) .overflowError

/-- The days from `first` to `last`, in order. -/
def daysFrom (first last : ℤ) : List ℤ :=
  (List.range (last - first + 1).toNat).map fun (offset : ℕ) => first + offset

theorem mem_daysFrom {first last day : ℤ} :
    day ∈ daysFrom first last ↔ first ≤ day ∧ day ≤ last := by
  simp only [daysFrom, List.mem_map, List.mem_range]
  constructor
  · rintro ⟨offset, hlt, rfl⟩
    omega
  · rintro ⟨hfirst, hlast⟩
    exact ⟨(day - first).toNat, by omega, by omega⟩

/-! ### Doubles -/

open Library.Rounding

/-- The double nearest to a rational. -/
def toDouble (value : ℚ) : ℚ :=
  roundToPrecision 53 value

/-- `float(value)` of an integer. -/
def floatOfInt (value : ℤ) : ℚ :=
  toDouble value

def fmul (a b : ℚ) : ℚ := toDouble (a * b)

def fadd (a b : ℚ) : ℚ := toDouble (a + b)

def fsub (a b : ℚ) : ℚ := toDouble (a - b)

/-- `a / b`; the operands are doubles, or integers that the division reads exactly. -/
def fdiv (a b : ℚ) : Result ℚ :=
  if b = 0 then .error .zeroDivisionError else .ok (toDouble (a / b))

/-- `round(value)`. -/
def pyRound (value : ℚ) : ℤ :=
  roundHalfEven value

/-- `int(value)`, which drops the fraction. -/
def pyInt (value : ℚ) : ℤ :=
  if 0 ≤ value then ⌊value⌋ else ⌈value⌉

def microsecondsPerHour : ℤ := 3600000000

/-- `round(hours * MICROSECONDS_PER_HOUR)`. -/
def hoursToRoundedMicroseconds (hours : ℚ) : ℤ :=
  pyRound (fmul hours (floatOfInt microsecondsPerHour))

/-! ### Texts -/

/-- The characters that `str.strip` removes. -/
def isPySpace (c : Char) : Bool :=
  let n := c.toNat
  (9 ≤ n && n ≤ 13) || (28 ≤ n && n ≤ 32) || n == 0x85 || n == 0xA0 || n == 0x1680 ||
    (0x2000 ≤ n && n ≤ 0x200A) || n == 0x2028 || n == 0x2029 || n == 0x202F || n == 0x205F ||
    n == 0x3000

/-- `value and value.strip() == value`. -/
def isCanonicalText (value : String) : Bool :=
  match value.toList with
  | [] => false
  | c :: cs => !isPySpace c && !isPySpace ((c :: cs).getLast (by simp))

/-- `value.strip()` is not empty. -/
def isNonEmptyText (value : String) : Bool :=
  value.toList.any fun c => !isPySpace c

/-! ### Integer ranges -/

def maxSafeInteger : ℕ := 2 ^ 53 - 1

def maxSqliteInteger : ℕ := 2 ^ 63 - 1

/-- `_require_safe_integer`. -/
def requireSafeInteger (value : ℕ) (label : String) : Result Unit :=
  require (value ≤ maxSafeInteger) (label ++ " must not exceed 2^53 - 1")

/-- `_require_microseconds`. -/
def requireMicroseconds (value : ℤ) (label : String) : Result Unit :=
  require (0 ≤ value ∧ value ≤ maxSqliteInteger)
    (label ++ " must fit the non-negative signed SQLite integer range")

/-- `_require_fraction`. -/
def requireFraction (value : ℚ) (label : String) : Result Unit :=
  require (0 ≤ value ∧ value ≤ 1) (label ++ " must be a finite fraction in [0, 1]")

/-- `_require_text`. -/
def requireText (value : String) (label : String) : Result Unit :=
  require (isCanonicalText value) (label ++ " must be non-empty canonical text")

/-! ### Inversion lemmas -/

open Library.Outcome

@[simp] theorem require_eq_ok {c : Prop} [Decidable c] {message : String} {u : Unit} :
    require c message = .ok u ↔ c :=
  check_eq_ok

theorem next_eq_ok {α : Type} {holds : α → Bool} {items : List α} {a : α} :
    next holds items = .ok a ↔ items.find? holds = some a := by
  unfold next
  cases items.find? holds <;> simp

theorem mem_of_next {α : Type} {holds : α → Bool} {items : List α} {a : α}
    (h : next holds items = .ok a) : a ∈ items ∧ holds a = true := by
  rw [next_eq_ok] at h
  exact ⟨List.mem_of_find?_eq_some h, List.find?_some h⟩

theorem getItem_eq_ok {α κ : Type} [DecidableEq κ] {key : α → κ} {rows : List α} {k : κ} {a : α}
    (h : getItem key rows k = .ok a) : a ∈ rows ∧ key a = k := by
  unfold getItem at h
  cases hfind : rows.find? (fun row => key row = k) with
  | none => simp [hfind] at h
  | some row =>
    simp only [hfind, Except.ok.injEq] at h
    subst h
    exact ⟨List.mem_of_find?_eq_some hfind, by simpa using List.find?_some hfind⟩

theorem getIndex_eq_ok {α : Type} {items : List α} {index : ℕ} {a : α} :
    getIndex items index = .ok a ↔ items[index]? = some a := by
  unfold getIndex
  cases items[index]? <;> simp

end JiraSimulator
