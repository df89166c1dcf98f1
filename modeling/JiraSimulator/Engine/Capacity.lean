import JiraSimulator.Domain.Value
import JiraSimulator.Library.Keyed

/-!
# Random draws and the capacity of members

The random source of a precomputation is a state with its draws.  Each member works on at most one
issue in a tick: the member's tick state says whether the member is busy, and to which issue the
member is assigned.
-/

namespace JiraSimulator.Engine

open Library

/-! ### Random draws -/

/-- `random.Random`: the states of the generator, and the primitive draws from one. -/
structure RandomSource where
  State : Type
  /-- `random.Random(seed)`. -/
  seeded : ℤ → State
  /-- `rng.random()`. -/
  random : State → ℚ × State
  /-- A number below a positive bound, which `choice`, `shuffle` and `randint` draw. -/
  randbelow : ℕ → State → ℕ × State
  /-- `rng.gauss(0.0, 1.0)`. -/
  gauss : State → ℚ × State
  randbelow_lt : ∀ n s, 0 < n → (randbelow n s).1 < n

namespace RandomSource

variable (source : RandomSource)

/-- `rng.randint(low, high)`. -/
def randint (low high : ℤ) (rng : source.State) : Result (ℤ × source.State) := do
  require (low ≤ high) "empty range for randrange()"
  let (draw, rng) := source.randbelow (high - low + 1).toNat rng
  return (low + draw, rng)

/-- `rng.uniform(low, high)`. -/
def uniform (low high : ℚ) (rng : source.State) : ℚ × source.State :=
  let (draw, rng) := source.random rng
  (fadd low (fmul (fsub high low) draw), rng)

/-- `rng.choice(items)` of a list that is not empty. -/
def choice {α : Type} (items : List α) (rng : source.State) : Result (α × source.State) := do
  let (draw, rng) := source.randbelow items.length rng
  let item ← getIndex items draw
  return (item, rng)

/-- `items[i], items[j] = items[j], items[i]`. -/
def swap {α : Type} (items : List α) (i j : ℕ) : List α :=
  match items[i]?, items[j]? with
  | some a, some b => (items.set i b).set j a
  | _, _ => items

/-- The rounds of `rng.shuffle(items)` from the given index down to the second. -/
def shuffleFrom {α : Type} : ℕ → List α → source.State → List α × source.State
  | 0, items, rng => (items, rng)
  | i + 1, items, rng =>
    let (j, rng) := source.randbelow (i + 2) rng
    shuffleFrom i (swap items (i + 1) j) rng

/-- `rng.shuffle(items)`. -/
def shuffle {α : Type} (items : List α) (rng : source.State) : List α × source.State :=
  shuffleFrom source (items.length - 1) items rng

end RandomSource

/-! ### Members -/

structure MemberTickState where
  memberId : ℤ
  role : String
  busyThisTick : Bool
  assignedIssueId : Option ℤ
  deriving DecidableEq, Repr

/-- A dictionary from the identifiers of members to their tick states, as its values. -/
abbrev MemberStates := List MemberTickState

/-- `MemberSnapshot`. -/
structure MemberSnapshot where
  id : ℤ
  role : String
  deriving DecidableEq, Repr

/-- `build_member_states` of members without assignments. -/
def buildMemberStates (members : List MemberSnapshot) : MemberStates :=
  Keyed.ofList (·.memberId) (members.map fun member =>
    { memberId := member.id, role := member.role, busyThisTick := false, assignedIssueId := none })

/-- The members that `find_available_member` chooses from. -/
def availableMembers (states : MemberStates) (roles : List String) (issueId : ℤ) :
    List MemberTickState :=
  states.filter fun s => !s.busyThisTick && roles.contains s.role &&
    (s.assignedIssueId = none || s.assignedIssueId = some issueId)

def findAvailableMember (source : RandomSource) (states : MemberStates) (roles : List String)
    (issueId : ℤ) (rng : source.State) : Result (Option MemberTickState × source.State) :=
  let candidates := availableMembers states roles issueId
  if candidates.isEmpty then return (none, rng)
  else do
    let (member, rng) ← source.choice candidates rng
    return (some member, rng)

def markBusy (states : MemberStates) (memberId issueId : ℤ) : Result MemberStates := do
  let current ← getItem (·.memberId) states memberId
  return Keyed.assign (·.memberId) states
    { current with busyThisTick := true, assignedIssueId := some issueId }

def releaseAssignment (states : MemberStates) (memberId : ℤ) : Result MemberStates := do
  let current ← getItem (·.memberId) states memberId
  return Keyed.assign (·.memberId) states { current with assignedIssueId := none }

end JiraSimulator.Engine
