import JiraSimulator.Domain.Value

/-!
# The pages of the sprints of a board

The client asks for a page of the sprints of a board at a start position, and computes the position
of the next page from four fields of the answer that may be absent or of any type.
-/

namespace JiraSimulator

/-- A field of a JSON object, as far as the client distinguishes it. -/
inductive PageField where
  | null
  | bool (value : Bool)
  | int (value : ℤ)
  /-- A float, a text, a list or an object. -/
  | other
  deriving DecidableEq, Repr

/-- The value of a field that is an instance of `int`. -/
def PageField.asInt? : PageField → Option ℤ
  | .bool value => some (if value then 1 else 0)
  | .int value => some value
  | _ => none

/-- The answer to a request for sprints, with its fields unless they are absent. -/
structure SprintDocument (α : Type) where
  /-- The elements of `document.get("values", [])`, or the exception that reading them raises. -/
  values : Result (List α)
  isLast : Option PageField
  startAt : Option PageField
  maxResults : Option PageField
  total : Option PageField

def jiraPageSize : ℤ := 50

/-- `_next_page_start`. -/
def nextPageStart {α : Type} (document : SprintDocument α) (currentStart : ℤ) (hasValues : Bool) :
    Option ℤ :=
  if document.isLast = some (.bool true) ∨ hasValues = false then none
  else if document.isLast = none ∧ document.startAt = none ∧ document.maxResults = none ∧
      document.total = none then none
  else
    match (document.startAt.getD (.int currentStart)).asInt?,
      (document.maxResults.getD (.int jiraPageSize)).asInt? with
    | some pageStart, some pageSize =>
      let nextStart := pageStart + pageSize
      let reachedTotal := (document.total.bind PageField.asInt?).any fun total => total ≤ nextStart
      if nextStart ≤ currentStart ∨ reachedTotal then none else some nextStart
    | _, _ => none

/-- How Jira answers the n-th request for the sprints at a start position; a request may fail. -/
abbrev SprintServer (α : Type) := ℕ → ℤ → Result (SprintDocument α)

/-- One round of the loop: the values of the page, and where the next one starts. -/
def sprintPage {α : Type} (server : SprintServer α) (n : ℕ) (startAt : ℤ) :
    Result (List α × Option ℤ) := do
  let document ← server n startAt
  let values ← document.values
  return (values, nextPageStart document startAt (values ≠ []))

/-- The loop of `get_board_sprints` before its n-th request; without a result it still runs after
the given number of pages. -/
def readSprints {α : Type} (server : SprintServer α) :
    ℕ → ℕ → ℤ → List α → Option (Result (List α))
  | 0, _, _, _ => none
  | pages + 1, n, startAt, sprints =>
    match sprintPage server n startAt with
    | .error error => some (.error error)
    | .ok (values, none) => some (.ok (sprints ++ values))
    | .ok (values, some nextStart) =>
      readSprints server pages (n + 1) nextStart (sprints ++ values)

/-- `get_board_sprints`, for at most the given number of pages. -/
def getBoardSprints {α : Type} (server : SprintServer α) (pages : ℕ) :
    Option (Result (List α)) :=
  readSprints server pages 0 0 []

end JiraSimulator
