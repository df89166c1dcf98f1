import JiraSimulator.Domain.LiveSlice
import JiraSimulator.Library.PageTraversal

/-!
# Pages of the ledgers

The activity, the ground truth and the projection intents of all teams are tables whose rows the
database numbers as they are appended.  A page shows the rows of one team, or of one of its runs,
behind a sequence number.
-/

namespace JiraSimulator

open Library

/-- A row of a ledger. -/
structure LedgerRow (α : Type) where
  appendSequence : ℕ
  teamId : Uuid
  runId : Uuid
  record : α
  deriving DecidableEq

/-- The position of a row in the order of the table. -/
def LedgerRow.position {α : Type} (row : LedgerRow α) : ℤ :=
  row.appendSequence

/-- A ledger, with its primary key. -/
structure LedgerTable (α : Type) where
  rows : List (LedgerRow α)
  unique : (rows.map LedgerRow.position).Nodup

/-- `LedgerPageQuery` and `ProjectionPageQuery`. -/
structure LedgerPageQuery where
  teamId : Uuid
  runId : Option Uuid
  afterSequence : Option ℕ
  limit : ℕ

def maxPageSize : ℕ := 100

def LedgerPageQuery.validate (query : LedgerPageQuery) : Result Unit :=
  require (1 ≤ query.limit ∧ query.limit ≤ maxPageSize) "limit must be between 1 and 100"

/-- The conditions of the statement on the owner of a row. -/
def LedgerRow.isOwnedBy {α : Type} (teamId : Uuid) (runId : Option Uuid) (row : LedgerRow α) :
    Bool :=
  row.teamId = teamId && runId.all fun run => row.runId = run

/-- `_page_rows`. -/
def LedgerTable.pageRows {α : Type} (table : LedgerTable α) (query : LedgerPageQuery) :
    List (LedgerRow α) × Option ℕ :=
  let owned := table.rows.filter (LedgerRow.isOwnedBy query.teamId query.runId)
  let found := Paging.page LedgerRow.position (query.limit + 1)
    (query.afterSequence.map Int.ofNat) owned
  let visible := found.take query.limit
  (visible, if query.limit < found.length then visible.getLast?.map (·.appendSequence) else none)

/-- `page_activity`, `page_ground_truth` and `page_projection`. -/
def LedgerTable.page {α : Type} (table : LedgerTable α) (query : LedgerPageQuery) :
    Result (List (LedgerRow α) × Option ℕ) := do
  query.validate
  return table.pageRows query

/-- A reader that follows `next_cursor` over one page and at most `further` more, the n-th from the
n-th state of the ledger: the rows that it has seen, and the cursor unless there is none. -/
def followCursor {α : Type} (ledgers : ℕ → LedgerTable α) :
    ℕ → ℕ → LedgerPageQuery → Result (List (LedgerRow α) × Option ℕ)
  | 0, n, query => (ledgers n).page query
  | further + 1, n, query => do
    let page ← (ledgers n).page query
    match page.2 with
    | none => return page
    | some cursor =>
      let later ← followCursor ledgers further (n + 1) { query with afterSequence := some cursor }
      return (page.1 ++ later.1, later.2)

end JiraSimulator
