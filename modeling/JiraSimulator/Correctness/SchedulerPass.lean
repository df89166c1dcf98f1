import JiraSimulator.Application.DuePages
import JiraSimulator.Correctness.Scripts

/-!
# The teams of a scheduler pass

The cursor of a pass moves past every team that it attempts, so no team is attempted twice and each
team belongs to one page, whatever the advances do to the runtimes.

* `scheduler_pass`: a pass ends, attempts exactly the teams that are due when their page is read,
  and sorts them by whether their advance raised.
-/

namespace JiraSimulator

open Library Library.Outcome Library.Paging

variable {p : Platform} {advance : TeamAdvance p} {asOf : ℤ}

/-! ### Calls -/

/-- Calls of `_advance` one after another, from the n-th on, with their outcomes. -/
inductive Calls (advance : TeamAdvance p) :
    ℕ → RuntimeTable p → List (Uuid × Result Unit) → RuntimeTable p → Prop
  | nil {n : ℕ} {table : RuntimeTable p} : Calls advance n table [] table
  | cons {n : ℕ} {table after : RuntimeTable p} {team : Uuid} {calls : List (Uuid × Result Unit)}
      (rest : Calls advance (n + 1) (advance.run n team table).1 calls after) :
      Calls advance n table ((team, (advance.run n team table).2) :: calls) after

theorem Calls.append {n : ℕ} {table between after : RuntimeTable p}
    {calls calls' : List (Uuid × Result Unit)} (h : Calls advance n table calls between)
    (h' : Calls advance (n + calls.length) between calls' after) :
    Calls advance n table (calls ++ calls') after := by
  induction h with
  | nil => exact h'
  | cons rest ih =>
    refine .cons (ih ?_)
    rwa [List.length_cons, Nat.add_comm _ 1, ← Nat.add_assoc] at h'

theorem Calls.teams_eq {n : ℕ} {table after : RuntimeTable p}
    {calls : List (Uuid × Result Unit)} (h : Calls advance n table calls after) :
    after.rows.map (·.teamId) = table.rows.map (·.teamId) := by
  induction h with
  | nil => rfl
  | cons rest ih => exact ih.trans (advance.teams_eq _ _ _)

/-- The call returned. -/
def returned (call : Uuid × Result Unit) : Bool :=
  match call.2 with
  | .ok _ => true
  | .error _ => false

/-- The result lists the called teams, those whose call returned and those whose call raised. -/
structure SortsCalls (result : SchedulerRunResult) (calls : List (Uuid × Result Unit)) : Prop where
  attempted : result.attempted = calls.map (·.1)
  succeeded : result.succeeded = (calls.filter returned).map (·.1)
  failed : result.failed = (calls.filter fun call => !returned call).map (·.1)

theorem SortsCalls.extend {result page : SchedulerRunResult}
    {calls calls' : List (Uuid × Result Unit)} (h : SortsCalls result calls)
    (h' : SortsCalls page calls') : SortsCalls (result.extend page) (calls ++ calls') where
  attempted := by rw [SchedulerRunResult.extend, h.attempted, h'.attempted, List.map_append]
  succeeded := by
    rw [SchedulerRunResult.extend, h.succeeded, h'.succeeded, List.filter_append, List.map_append]
  failed := by
    rw [SchedulerRunResult.extend, h.failed, h'.failed, List.filter_append, List.map_append]

section run

variable {n : ℕ} {team : Uuid} {teams : List Uuid} {table : RuntimeTable p}

theorem runOperations_of_ok {u : Unit} (h : (advance.run n team table).2 = .ok u) :
    runOperations advance n (team :: teams) table =
      ((runOperations advance (n + 1) teams (advance.run n team table).1).1,
        team :: (runOperations advance (n + 1) teams (advance.run n team table).1).2.1,
        (runOperations advance (n + 1) teams (advance.run n team table).1).2.2) := by
  rw [runOperations]
  simp only [h]

theorem runOperations_of_error {e : PyError} (h : (advance.run n team table).2 = .error e) :
    runOperations advance n (team :: teams) table =
      ((runOperations advance (n + 1) teams (advance.run n team table).1).1,
        (runOperations advance (n + 1) teams (advance.run n team table).1).2.1,
        team :: (runOperations advance (n + 1) teams (advance.run n team table).1).2.2) := by
  rw [runOperations]
  simp only [h]

/-- The loop of `_run` calls its teams in order and sorts them by their outcomes. -/
theorem runTeams_calls (advance : TeamAdvance p) (n : ℕ) (teams : List Uuid) (table : RuntimeTable p) :
    ∃ calls, Calls advance n table calls (runTeams advance n teams table).1 ∧
      SortsCalls (runTeams advance n teams table).2 calls := by
  induction teams generalizing n table with
  | nil => exact ⟨[], .nil, rfl, rfl, rfl⟩
  | cons team teams ih =>
    obtain ⟨calls, hcalls, hattempted, hsucceeded, hfailed⟩ :=
      ih (n + 1) (advance.run n team table).1
    unfold runTeams at hcalls hsucceeded hfailed ⊢
    dsimp only at hcalls hsucceeded hfailed ⊢
    refine ⟨(team, (advance.run n team table).2) :: calls, ?_, congrArg (team :: ·) hattempted, ?_,
      ?_⟩
    · cases houtcome : (advance.run n team table).2 with
      | ok u =>
        rw [runOperations_of_ok houtcome, ← houtcome]
        exact .cons hcalls
      | error e =>
        rw [runOperations_of_error houtcome, ← houtcome]
        exact .cons hcalls
    · cases houtcome : (advance.run n team table).2 with
      | ok u =>
        rw [runOperations_of_ok houtcome]
        exact congrArg (team :: ·) hsucceeded
      | error e =>
        rw [runOperations_of_error houtcome]
        exact hsucceeded
    · cases houtcome : (advance.run n team table).2 with
      | ok u =>
        rw [runOperations_of_ok houtcome]
        exact hfailed
      | error e =>
        rw [runOperations_of_error houtcome]
        exact congrArg (team :: ·) hfailed

end run

/-! ### Pages -/

section page

variable {table : RuntimeTable p} {cursor : Option Uuid} {teamIds : List Uuid}

/-- The team comes after the cursor. -/
def After (p : Platform) (cursor : Option Uuid) (team : Uuid) : Prop :=
  Beyond (cursor.map (uuidOrder p)) (uuidOrder p team)

/-- The runtime of the team is due. -/
def DueTeam (table : RuntimeTable p) (asOf : ℤ) (team : Uuid) : Prop :=
  ∃ runtime ∈ table.rows, runtime.teamId = team ∧ runtime.isDue asOf = true

theorem dueTeamIds_eq (table : RuntimeTable p) (asOf : ℤ) (cursor : Option Uuid) :
    table.dueTeamIds asOf maxDueTeams cursor =
      .ok ((page (teamOrder p) maxDueTeams (cursor.map (uuidOrder p))
        (table.rows.filter fun runtime => runtime.isDue asOf)).map (·.teamId)) := by
  rw [RuntimeTable.dueTeamIds, require, check_of (by decide)]
  rfl

theorem due_unique (table : RuntimeTable p) (asOf : ℤ) :
    ((table.rows.filter fun runtime => runtime.isDue asOf).map (teamOrder p)).Nodup :=
  table.unique.sublist (List.filter_sublist.map _)

/-- What a page of due teams holds: its teams come after the cursor in their order, are due, and are
all that are due up to the last of them; an empty page leaves no due team after the cursor. -/
structure DuePage (table : RuntimeTable p) (asOf : ℤ) (cursor : Option Uuid)
    (teamIds : List Uuid) : Prop where
  sorted : teamIds.Pairwise fun a b => uuidOrder p a < uuidOrder p b
  after : ∀ team ∈ teamIds, After p cursor team
  due : ∀ team ∈ teamIds, DueTeam table asOf team
  upTo : ∀ last, teamIds.getLast? = some last → ∀ team ∈ teamIds,
    uuidOrder p team ≤ uuidOrder p last
  complete : ∀ team, After p cursor team → DueTeam table asOf team →
    (∀ last, teamIds.getLast? = some last → uuidOrder p team ≤ uuidOrder p last) →
    team ∈ teamIds

theorem dueTeamIds_eq_ok (h : table.dueTeamIds asOf maxDueTeams cursor = .ok teamIds) :
    DuePage table asOf cursor teamIds := by
  rw [dueTeamIds_eq, Except.ok.injEq] at h
  subst h
  set due := table.rows.filter fun runtime => runtime.isDue asOf with hdue
  set rows := page (teamOrder p) maxDueTeams (cursor.map (uuidOrder p)) due with hrows
  have hunique : (due.map (teamOrder p)).Nodup := due_unique table asOf
  -- the order of the rows is that of their teams
  have hlast : ∀ last, (rows.map (·.teamId)).getLast? = some last →
      ∃ runtime, rows.getLast? = some runtime ∧ runtime.teamId = last := by
    intro last hlast
    rw [List.getLast?_map, Option.map_eq_some_iff] at hlast
    exact hlast
  constructor
  · exact List.pairwise_map.mpr (page_sorted hunique)
  · intro team hteam
    obtain ⟨runtime, hruntime, rfl⟩ := List.mem_map.mp hteam
    exact (mem_page hruntime).2
  · intro team hteam
    obtain ⟨runtime, hruntime, rfl⟩ := List.mem_map.mp hteam
    obtain ⟨hmem, hisDue⟩ := List.mem_filter.mp (mem_page hruntime).1
    exact ⟨runtime, hmem, rfl, hisDue⟩
  · intro last hlast' team hteam
    obtain ⟨runtime, hruntime, rfl⟩ := hlast last hlast'
    obtain ⟨row, hrow, rfl⟩ := List.mem_map.mp hteam
    show teamOrder p row ≤ teamOrder p runtime
    exact le_of_mem_page hunique hruntime hrow
  · rintro team hafter ⟨runtime, hmem, rfl, hisDue⟩ hle
    have hdueRow : runtime ∈ due := List.mem_filter.mpr ⟨hmem, hisDue⟩
    refine List.mem_map.mpr ⟨runtime, ?_, rfl⟩
    -- a page without rows means that no due team lies beyond the cursor
    cases hend : rows.getLast? with
    | none =>
      rw [List.getLast?_eq_none_iff] at hend
      have hnone : ¬ Beyond (cursor.map (uuidOrder p)) (teamOrder p runtime) :=
        not_beyond_of_page_eq_nil (by decide) hend hdueRow
      exact absurd hafter hnone
    | some last =>
      have hlast' : (rows.map (·.teamId)).getLast? = some last.teamId := by
        rw [List.getLast?_map, hend]
        rfl
      exact mem_page_of_le hunique hend hdueRow hafter (hle _ hlast')

end page

/-! ### Rounds -/

/-- The pass reads its pages from the passes that follow it. -/
def ReadsFrom (advance : TeamAdvance p) (asOf : ℤ) : SchedulerPass p → SchedulerPass p → Prop :=
  Relation.ReflTransGen fun pass next => pass.round advance asOf = .ok (some next)

/-- The page that a pass reads is the one in whose range a team lies: after the cursor, and up to
the last team of the page unless this is the last read. -/
def SchedulerPass.Covers (pass : SchedulerPass p) (asOf : ℤ) (team : Uuid) : Prop :=
  After p pass.cursor team ∧ ∀ teamIds last,
    pass.runtimes.dueTeamIds asOf maxDueTeams pass.cursor = .ok teamIds →
    teamIds.getLast? = some last → uuidOrder p team ≤ uuidOrder p last

/-- A round of a pass: its page is empty, or all teams of its page are called. -/
theorem round_eq (advance : TeamAdvance p) (asOf : ℤ) (pass : SchedulerPass p) :
    ∃ teamIds, pass.runtimes.dueTeamIds asOf maxDueTeams pass.cursor = .ok teamIds ∧
      ((teamIds.getLast? = none ∧ pass.round advance asOf = .ok none) ∨
      ∃ last next calls page, teamIds.getLast? = some last ∧
        pass.round advance asOf = .ok (some next) ∧ next.cursor = some last ∧
        Calls advance pass.result.attempted.length pass.runtimes calls next.runtimes ∧
        SortsCalls page calls ∧ page.attempted = teamIds ∧
        next.result = pass.result.extend page) := by
  refine ⟨_, dueTeamIds_eq _ _ _, ?_⟩
  rw [SchedulerPass.round, dueTeamIds_eq, ok_bind]
  set teamIds := (page (teamOrder p) maxDueTeams (pass.cursor.map (uuidOrder p))
    (pass.runtimes.rows.filter fun runtime => runtime.isDue asOf)).map (·.teamId)
  cases hlast : teamIds.getLast? with
  | none => exact .inl ⟨rfl, rfl⟩
  | some last =>
    obtain ⟨calls, hcalls, hsorts⟩ := runTeams_calls advance
      pass.result.attempted.length teamIds pass.runtimes
    exact .inr ⟨last, _, calls, _, rfl, rfl, rfl, hcalls, hsorts, rfl, rfl⟩

/-- What a pass does until it ends: it calls teams after its cursor in their order, and each team
after the cursor exactly when it is due when its page is read. -/
structure EndsWith (advance : TeamAdvance p) (asOf : ℤ) (pass final : SchedulerPass p)
    (calls : List (Uuid × Result Unit)) : Prop where
  called : Calls advance pass.result.attempted.length pass.runtimes calls final.runtimes
  sorts : ∃ rest, SortsCalls rest calls ∧ final.result = pass.result.extend rest
  ordered : (calls.map (·.1)).Pairwise fun a b => uuidOrder p a < uuidOrder p b
  after : ∀ team ∈ calls.map (·.1), After p pass.cursor team
  covered : ∀ team, After p pass.cursor team → ∃ read, ReadsFrom advance asOf pass read ∧
    read.Covers asOf team ∧ (team ∈ calls.map (·.1) ↔ DueTeam read.runtimes asOf team)

instance (cursor : Option Uuid) (team : Uuid) : Decidable (After p cursor team) :=
  inferInstanceAs (Decidable (Beyond _ _))

/-- The teams after the cursor. -/
def SchedulerPass.left (pass : SchedulerPass p) : List Uuid :=
  (pass.runtimes.rows.map (·.teamId)).filter fun team => After p pass.cursor team

theorem after_some {last team : Uuid} :
    After p (some last) team ↔ uuidOrder p last < uuidOrder p team := by
  simp [After, Beyond]

theorem After.of_some {cursor : Option Uuid} {last team : Uuid} (hlast : After p cursor last)
    (h : After p (some last) team) : After p cursor team := by
  intro c hc
  exact (hlast c hc).trans (after_some.mp h)

/-- The cursor moves over a team. -/
theorem left_length_lt {pass next : SchedulerPass p} {last : Uuid}
    (hteams : next.runtimes.rows.map (·.teamId) = pass.runtimes.rows.map (·.teamId))
    (hcursor : next.cursor = some last) (hmem : last ∈ pass.runtimes.rows.map (·.teamId))
    (hlast : After p pass.cursor last) : next.left.length < pass.left.length := by
  have hsub : next.left.Sublist pass.left := by
    unfold SchedulerPass.left
    rw [hteams, hcursor]
    refine List.monotone_filter_right _ fun team hteam => ?_
    exact decide_eq_true (hlast.of_some (of_decide_eq_true hteam))
  refine lt_of_le_of_ne hsub.length_le fun heq => ?_
  have hin : last ∈ pass.left := List.mem_filter.mpr ⟨hmem, decide_eq_true hlast⟩
  rw [← hsub.eq_of_length heq] at hin
  have hafter := of_decide_eq_true (List.mem_filter.mp hin).2
  rw [hcursor, after_some] at hafter
  exact lt_irrefl _ hafter

theorem pass_ends (advance : TeamAdvance p) (asOf : ℤ) (pass : SchedulerPass p) :
    ∃ rounds final calls, drainDuePages advance asOf rounds pass = some (.ok final) ∧
      EndsWith advance asOf pass final calls := by
  -- each round leaves fewer teams behind the cursor
  obtain ⟨left, hleft⟩ : ∃ left, pass.left.length = left := ⟨_, rfl⟩
  induction left using Nat.strong_induction_on generalizing pass with
  | _ left ih =>
    obtain ⟨teamIds, hpage, ⟨hempty, hround⟩ | ⟨last, next, calls, page, hlast, hround, hcursor,
      hcalls, hsorts, hattempted, hresult⟩⟩ := round_eq advance asOf pass
    · -- nothing is due any more
      refine ⟨1, pass, [], ?_, .nil, ⟨{}, ⟨rfl, rfl, rfl⟩, ?_⟩, .nil, by simp, ?_⟩
      · rw [drainDuePages, hround]
      · simp [SchedulerRunResult.extend]
      · intro team hafter
        have hcovers : pass.Covers asOf team := by
          refine ⟨hafter, fun ids last hids hlast => ?_⟩
          rw [hpage, Except.ok.injEq] at hids
          rw [← hids, hempty] at hlast
          cases hlast
        refine ⟨pass, .refl, hcovers, ?_⟩
        constructor
        · intro hmem
          cases hmem
        · intro hdue
          have hmem := (dueTeamIds_eq_ok hpage).complete team hafter hdue fun last hlast => by
            rw [hempty] at hlast
            cases hlast
          rw [List.getLast?_eq_none_iff.mp hempty] at hmem
          cases hmem
    · have hdue := dueTeamIds_eq_ok hpage
      have hmemLast := List.mem_of_getLast? hlast
      have hteamIds : teamIds = calls.map (·.1) := hattempted.symm.trans hsorts.attempted
      obtain ⟨runtime, hruntime, hteam, -⟩ := hdue.due last hmemLast
      have hshorter := left_length_lt hcalls.teams_eq hcursor
        (List.mem_map.mpr ⟨runtime, hruntime, hteam⟩) (hdue.after last hmemLast)
      obtain ⟨rounds, final, calls', hdrain, hends⟩ := ih _ (hleft ▸ hshorter) next rfl
      have hrest : ∀ {team}, After p (some last) team → After p pass.cursor team :=
        fun h => (hdue.after last hmemLast).of_some h
      obtain ⟨rest, hrestSorts, hfinal⟩ := hends.sorts
      refine ⟨rounds + 1, final, calls ++ calls', ?_, ?_, ?_, ?_, ?_, ?_⟩
      · rw [drainDuePages, hround]
        exact hdrain
      · refine hcalls.append ?_
        have hn : next.result.attempted.length =
            pass.result.attempted.length + calls.length := by
          rw [hresult, SchedulerRunResult.extend, List.length_append, hsorts.attempted,
            List.length_map]
        exact hn ▸ hends.called
      · refine ⟨page.extend rest, hsorts.extend hrestSorts, ?_⟩
        rw [hfinal, hresult]
        simp [SchedulerRunResult.extend]
      · -- the teams of a page come before those of the later ones
        rw [List.map_append, ← hteamIds]
        refine List.pairwise_append.mpr ⟨hdue.sorted, hends.ordered, fun a ha b hb => ?_⟩
        have hle := hdue.upTo last hlast a ha
        have hlt := hends.after b hb
        rw [hcursor, after_some] at hlt
        omega
      · intro team hmem
        rw [List.map_append, ← hteamIds, List.mem_append] at hmem
        rcases hmem with hmem | hmem
        · exact hdue.after team hmem
        · exact hrest (hcursor ▸ hends.after team hmem)
      · intro team hafter
        rw [List.map_append, ← hteamIds]
        -- a team is read by the round in whose page it falls
        by_cases hle : uuidOrder p team ≤ uuidOrder p last
        · -- the team belongs to this page
          refine ⟨pass, .refl, ⟨hafter, fun ids last' hids hlast' => ?_⟩, ?_⟩
          · rw [hpage, Except.ok.injEq] at hids
            rw [← hids, hlast, Option.some.injEq] at hlast'
            exact hlast' ▸ hle
          · rw [List.mem_append]
            constructor
            · rintro (hmem | hmem)
              · exact hdue.due team hmem
              · have hlt := hends.after team hmem
                rw [hcursor, after_some] at hlt
                omega
            · intro hdueTeam
              refine .inl (hdue.complete team hafter hdueTeam fun last' hlast' => ?_)
              rw [hlast, Option.some.injEq] at hlast'
              exact hlast' ▸ hle
        · -- it belongs to a later one
          have hlater : After p next.cursor team := by
            rw [hcursor, after_some]
            omega
          obtain ⟨read, hread, hcovers, hiff⟩ := hends.covered team hlater
          refine ⟨read, .head hround hread, hcovers, ?_⟩
          rw [List.mem_append, ← hiff]
          constructor
          · rintro (hmem | hmem)
            · exact absurd (hdue.upTo last hlast team hmem) hle
            · exact hmem
          · exact .inr

/-- A pass over any runtimes ends without raising, whatever its advances write and wherever they
raise.  It attempts no team twice, sorts the attempted teams by whether their advance raised, and
attempts a team exactly when it is due when its page is read. -/
theorem scheduler_pass (advance : TeamAdvance p) (asOf : ℤ) (table : RuntimeTable p) :
    ∃ rounds final calls,
      drainDuePages advance asOf rounds { runtimes := table } = some (.ok final) ∧
      Calls advance 0 table calls final.runtimes ∧ SortsCalls final.result calls ∧
      final.result.attempted.Nodup ∧
      ∀ team, ∃ read, ReadsFrom advance asOf { runtimes := table } read ∧
        read.Covers asOf team ∧
        (team ∈ final.result.attempted ↔ DueTeam read.runtimes asOf team) := by
  obtain ⟨rounds, final, calls, hdrain, hends⟩ :=
    pass_ends advance asOf { runtimes := table }
  obtain ⟨rest, hsorts, hfinal⟩ := hends.sorts
  have hresult : final.result = rest := by
    rw [hfinal]
    simp [SchedulerRunResult.extend]
  subst hresult
  refine ⟨rounds, final, calls, hdrain, hends.called, hsorts, ?_, fun team => ?_⟩
  · rw [hsorts.attempted]
    exact hends.ordered.imp fun hlt heq => by
      rw [heq] at hlt
      exact lt_irrefl _ hlt
  · rw [hsorts.attempted]
    exact hends.covered team fun c hc => by cases hc

end JiraSimulator
