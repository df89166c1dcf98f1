import JiraSimulator.Persistence.LedgerPages

/-!
# Reading a ledger page by page

* `followCursor_eq`: a reader of the ledger is a reader of the rows of the team.
* `ledger_paging`: it sees every row once, in the order of the table, while rows are appended.
-/

namespace JiraSimulator

open Library Library.Outcome Library.Paging

variable {α : Type}

/-- The rows of a team, or of one of its runs, in the order of their sequence numbers. -/
structure Lists (table : LedgerTable α) (teamId : Uuid) (runId : Option Uuid)
    (rows : List (LedgerRow α)) : Prop where
  sorted : rows.Pairwise fun a b => a.appendSequence < b.appendSequence
  mem_iff : ∀ row, row ∈ rows ↔ row ∈ table.rows ∧ row.isOwnedBy teamId runId = true

/-- Between two reads rows may be appended, with greater sequence numbers. -/
def Appends (ledgers : ℕ → LedgerTable α) : Prop :=
  ∀ n, ∃ added, (ledgers (n + 1)).rows = (ledgers n).rows ++ added ∧
    ∀ a ∈ (ledgers n).rows, ∀ b ∈ added, a.appendSequence < b.appendSequence

/-! ### The rows of a team -/

/-- The rows that a query is about. -/
def ownedRows (teamId : Uuid) (runId : Option Uuid) (table : LedgerTable α) :
    List (LedgerRow α) :=
  table.rows.filter (LedgerRow.isOwnedBy teamId runId)

theorem ownedRows_unique (teamId : Uuid) (runId : Option Uuid) (table : LedgerTable α) :
    ((ownedRows teamId runId table).map LedgerRow.position).Nodup :=
  table.unique.sublist (List.filter_sublist.map _)

theorem lists_rest (teamId : Uuid) (runId : Option Uuid) (table : LedgerTable α) :
    Lists table teamId runId (rest LedgerRow.position none (ownedRows teamId runId table)) where
  sorted := by
    refine (rest_sorted (ownedRows_unique teamId runId table)).imp fun {a b} hlt => ?_
    simpa only [LedgerRow.position, Nat.cast_lt] using hlt
  mem_iff row := by
    rw [mem_rest, ownedRows, List.mem_filter]
    exact and_iff_left fun c hc => by cases hc

theorem Appends.grows {ledgers : ℕ → LedgerTable α} (h : Appends ledgers) (teamId : Uuid)
    (runId : Option Uuid) :
    Grows LedgerRow.position fun n => ownedRows teamId runId (ledgers n) where
  unique n := ownedRows_unique teamId runId (ledgers n)
  step n := by
    obtain ⟨added, hadded, hbehind⟩ := h n
    refine ⟨added.filter (LedgerRow.isOwnedBy teamId runId), ?_, fun a ha b hb => ?_⟩
    · rw [ownedRows, hadded, List.filter_append]
      rfl
    · have hlt := hbehind a (List.mem_of_mem_filter ha) b (List.mem_of_mem_filter hb)
      exact Nat.cast_lt.mpr hlt

/-! ### Readers -/

theorem pageRows_eq (table : LedgerTable α) (query : LedgerPageQuery) :
    (table.pageRows query).1 = (overfetched LedgerRow.position query.limit
      (query.afterSequence.map Int.ofNat) (ownedRows query.teamId query.runId table)).1 ∧
    (table.pageRows query).2.map Int.ofNat = (overfetched LedgerRow.position query.limit
      (query.afterSequence.map Int.ofNat) (ownedRows query.teamId query.runId table)).2 := by
  refine ⟨rfl, ?_⟩
  unfold LedgerTable.pageRows overfetched ownedRows
  dsimp only
  by_cases hmore : query.limit < (page LedgerRow.position (query.limit + 1)
      (query.afterSequence.map Int.ofNat)
      (table.rows.filter (LedgerRow.isOwnedBy query.teamId query.runId))).length
  · rw [if_pos hmore, if_pos hmore, Option.map_map]
    rfl
  · rw [if_neg hmore, if_neg hmore]
    rfl

/-- A reader of the ledger with an accepted query is a reader of the rows of the team. -/
theorem followCursor_eq {ledgers : ℕ → LedgerTable α} {query : LedgerPageQuery}
    (hvalid : query.validate = .ok ()) (further n : ℕ) :
    ∃ next, followCursor ledgers further n query =
        .ok ((readPages LedgerRow.position query.limit
          (fun n => ownedRows query.teamId query.runId (ledgers n)) further n
          (query.afterSequence.map Int.ofNat)).1, next) ∧
      next.map Int.ofNat = (readPages LedgerRow.position query.limit
        (fun n => ownedRows query.teamId query.runId (ledgers n)) further n
        (query.afterSequence.map Int.ofNat)).2 := by
  induction further generalizing n query with
  | zero =>
    obtain ⟨hrows, hnext⟩ := pageRows_eq (ledgers n) query
    refine ⟨((ledgers n).pageRows query).2, ?_, hnext⟩
    simp only [followCursor, LedgerTable.page, hvalid, ok_bind]
    exact congrArg Except.ok (Prod.ext hrows rfl)
  | succ further ih =>
    obtain ⟨hrows, hnext⟩ := pageRows_eq (ledgers n) query
    have hpage : (ledgers n).page query = .ok ((ledgers n).pageRows query) := by
      simp only [LedgerTable.page, hvalid, ok_bind]
      rfl
    -- the loop ends at the page that gives no cursor
    cases hcursor : ((ledgers n).pageRows query).2 with
    | none =>
      rw [hcursor] at hnext
      refine ⟨none, ?_, ?_⟩
      · simp only [followCursor, hpage, ok_bind, hcursor, readPages, ← hnext, Option.map_none]
        exact congrArg Except.ok (Prod.ext hrows hcursor)
      · simp only [readPages, ← hnext, Option.map_none]
    | some cursor =>
      rw [hcursor] at hnext
      have hnextQuery : ({ query with afterSequence := some cursor } : LedgerPageQuery).validate =
          .ok () := hvalid
      obtain ⟨next, hlater, hlast⟩ := ih hnextQuery (n + 1)
      refine ⟨next, ?_, ?_⟩
      · simp only [followCursor, hpage, ok_bind, hcursor, hlater, readPages, ← hnext,
          Option.map_some, hrows]
        rfl
      · simp only [readPages, ← hnext, Option.map_some]
        exact hlast

/-- A reader that starts without a cursor and follows `next_cursor` over `further + 1` pages.  When
there is no next cursor, it has seen every row of the team that the ledger held at the last read
once, in order, those of the first read first.  Otherwise it has seen the first rows, as many as
fit on the pages.  There is no next cursor when all rows fit. -/
theorem ledger_paging {ledgers : ℕ → LedgerTable α} (happends : Appends ledgers)
    {query : LedgerPageQuery} (hvalid : query.validate = .ok ())
    (hstart : query.afterSequence = none) (further : ℕ) :
    ∃ read next, followCursor ledgers further 0 query = .ok (read, next) ∧
      (next = none → ∃ m ≤ further, Lists (ledgers m) query.teamId query.runId read ∧
        ∃ before after, read = before ++ after ∧
          Lists (ledgers 0) query.teamId query.runId before) ∧
      (next ≠ none → read.length = (further + 1) * query.limit ∧
        ∃ unread, Lists (ledgers further) query.teamId query.runId (read ++ unread)) ∧
      ((ledgers further).rows.countP (LedgerRow.isOwnedBy query.teamId query.runId) ≤
        (further + 1) * query.limit → next = none) := by
  have hgrows := happends.grows query.teamId query.runId
  have hlimit : 0 < query.limit := by
    have hrange := require_eq_ok.mp hvalid
    omega
  obtain ⟨next, hread, hnext⟩ := @followCursor_eq _ ledgers _ hvalid further 0
  rw [hstart, Option.map_none] at hread hnext
  have hspec := hgrows.readPages_spec hlimit further 0 none
  rw [Nat.zero_add] at hspec
  rw [← hnext] at hspec
  -- the last page ends the ledger, or each page was full
  refine ⟨_, next, hread, fun hnone => ?_, fun hsome => ?_, fun hfits => ?_⟩
  · subst hnone
    rcases hspec with ⟨-, m, -, hle, hrows⟩ | ⟨hne, -⟩
    · obtain ⟨more, hmore⟩ := hgrows.rest_later none (Nat.zero_le m)
      refine ⟨m, hle, ?_, _, more, hrows.trans hmore, lists_rest _ _ (ledgers 0)⟩
      rw [hrows]
      exact lists_rest _ _ (ledgers m)
    · exact absurd rfl hne
  · rcases hspec with ⟨hnone, -⟩ | ⟨-, hlong, hrows⟩
    · exact absurd (Option.map_eq_none_iff.mp hnone) hsome
    · rw [hrows]
      refine ⟨List.length_take_of_le hlong.le, (rest LedgerRow.position none
        (ownedRows query.teamId query.runId (ledgers further))).drop
          ((further + 1) * query.limit), ?_⟩
      rw [List.take_append_drop]
      exact lists_rest _ _ (ledgers further)
  · rcases hspec with ⟨hnone, -⟩ | ⟨-, hlong, -⟩
    · exact Option.map_eq_none_iff.mp hnone
    · rw [length_rest_none, ownedRows, ← List.countP_eq_length_filter] at hlong
      omega

/-! ### A ledger of two teams -/

/-- The row with a sequence number; the second one belongs to another team. -/
def numberedRow (sequence : ℕ) : LedgerRow Unit :=
  let team : Uuid := .team ⟨if sequence = 2 then "two" else "one"⟩
  { appendSequence := sequence, teamId := team, runId := .run team 0, record := () }

/-- The rows up to a sequence number. -/
def ledgerUpTo (last : ℕ) : LedgerTable Unit where
  rows := (List.range' 1 last).map numberedRow
  unique := by
    rw [List.map_map]
    exact (List.nodup_range').map fun a b h => Nat.cast_injective (R := ℤ) h

/-- The ledger of five rows, and of six after the first read. -/
def growingLedger : ℕ → LedgerTable Unit
  | 0 => ledgerUpTo 5
  | _ + 1 => ledgerUpTo 6

theorem growingLedger_appends : Appends growingLedger := by
  intro n
  cases n with
  | zero => exact ⟨[numberedRow 6], by decide, by decide⟩
  | succ n => exact ⟨[], (List.append_nil _).symm, fun _ _ _ hb => absurd hb List.not_mem_nil⟩

/-- Two rows of the first team on each page. -/
def firstTeamQuery : LedgerPageQuery where
  teamId := .team ⟨"one"⟩
  runId := none
  afterSequence := none
  limit := 2

/-- Four rows of the first team fill two pages exactly, and the fifth comes after the first page. -/
theorem ledger_paging_small :
    ∃ read, followCursor growingLedger 2 0 firstTeamQuery = .ok (read, none) ∧
      read.map (·.appendSequence) = [1, 3, 4, 5, 6] ∧
      ∃ m ≤ 2, Lists (growingLedger m) (.team ⟨"one"⟩) none read := by
  obtain ⟨read, next, hread, hstops, -, hfits⟩ :=
    ledger_paging growingLedger_appends (show firstTeamQuery.validate = .ok () from by decide) rfl 2
  obtain rfl := hfits (by decide)
  obtain ⟨m, hm, hlists, -⟩ := hstops rfl
  have hpages : (followCursor growingLedger 2 0 firstTeamQuery).toOption.map
      (fun page => page.1.map (·.appendSequence)) = some [1, 3, 4, 5, 6] := by
    decide
  rw [hread] at hpages
  exact ⟨read, hread, Option.some.inj hpages, m, hm, hlists⟩

end JiraSimulator
