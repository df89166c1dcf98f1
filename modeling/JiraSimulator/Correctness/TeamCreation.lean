import JiraSimulator.Correctness.Scripts
import JiraSimulator.Persistence.TeamRepository

/-!
# Concurrent creation of teams

Two calls of `create` can both find their key free.  The unique constraints let one of them insert
its rows, and the other reads the key again.

* `Registered`: the tables hold whole teams, one for each key and one for each blueprint.
* `Outcome`: what a call returned, by the teams that are stored.
* `creations_agree`: both hold in every interleaving.
* `creations_serialize`: every interleaving is a serial order of whole calls.
-/

namespace JiraSimulator

open Library Library.Outcome Library.Transition

variable {reader : BlueprintReader}

/-! ### Teams and their rows -/

def StoredTeam.withProgress (team : StoredTeam) (progress : TeamRuntime) : StoredTeam :=
  { team with runtime := team.runtime.withProgress progress }

/-- Two reads of one team: they differ at most in the progress of its run. -/
def StoredTeam.SameTeam (first second : StoredTeam) : Prop :=
  first.withProgress second.runtime = second

theorem StoredTeam.SameTeam.refl (team : StoredTeam) : team.SameTeam team := rfl

theorem StoredTeam.SameTeam.trans {first second third : StoredTeam} (h : first.SameTeam second)
    (h' : second.SameTeam third) : first.SameTeam third := by
  have hsame : (first.withProgress second.runtime).withProgress third.runtime =
      first.withProgress third.runtime := rfl
  unfold StoredTeam.SameTeam at h h' ⊢
  rw [← hsame, h, h']

theorem StoredTeam.SameTeam.symm {first second : StoredTeam} (h : first.SameTeam second) :
    second.SameTeam first := by
  calc second.withProgress first.runtime
      = (first.withProgress second.runtime).withProgress first.runtime :=
        congrArg (StoredTeam.withProgress · first.runtime) (Eq.symm h)
    _ = first := rfl

theorem StoredTeam.SameTeam.team_eq {first second : StoredTeam} (h : first.SameTeam second) :
    second.team = first.team :=
  (congrArg (·.team) h).symm

theorem StoredTeam.SameTeam.blueprintSha256_eq {first second : StoredTeam}
    (h : first.SameTeam second) : second.blueprintSha256 = first.blueprintSha256 :=
  (congrArg (·.blueprintSha256) h).symm

theorem StoredTeam.sameTeam_withProgress (team : StoredTeam) (progress : TeamRuntime) :
    team.SameTeam (team.withProgress progress) := rfl

/-- The identifiers of a team come from the digest of its blueprint, which can be read again. -/
structure StoredTeam.Valid (reader : BlueprintReader) (team : StoredTeam) : Prop where
  digest : team.blueprintSha256 = team.blueprint.sha256
  readable : reader.fromCanonicalJson team.blueprint.canonicalDocument = .ok team.blueprint
  id : team.team.id = .team team.blueprintSha256
  blueprintId : team.blueprintId = .blueprint (.team team.blueprintSha256)
  runId : team.run.id = .run (.team team.blueprintSha256) 0
  runTeamId : team.run.teamId = .team team.blueprintSha256
  runOrdinal : team.run.ordinal = 0
  runtimeId : team.runtime.id = .runtime (.team team.blueprintSha256)
  runtimeTeamId : team.runtime.teamId = .team team.blueprintSha256
  runtimeRunId : team.runtime.runId = .run (.team team.blueprintSha256) 0

theorem StoredTeam.Valid.of_sameTeam {first second : StoredTeam} (h : first.Valid reader)
    (hsame : first.SameTeam second) : second.Valid reader := by
  rw [← hsame]
  exact ⟨h.digest, h.readable, h.id, h.blueprintId, h.runId, h.runTeamId, h.runOrdinal, h.runtimeId,
    h.runtimeTeamId, h.runtimeRunId⟩

theorem CreateTeamCommand.aggregate_eq_ok {command : CreateTeamCommand} {submitted : StoredTeam}
    (h : command.aggregate reader = .ok submitted) :
    submitted.Valid reader ∧ submitted.team.idempotencyKey = command.idempotencyKey := by
  simp only [CreateTeamCommand.aggregate, bind_eq_ok] at h
  obtain ⟨requestedAt, -, h⟩ := h
  cases hread : reader.fromCanonicalJson command.blueprintJson with
  | error message => rw [hread] at h; cases h
  | ok blueprint =>
    rw [hread] at h
    cases h
    have hdocument := reader.canonicalDocument _ _ hread
    exact ⟨⟨rfl, hdocument ▸ hread, rfl, rfl, rfl, rfl, rfl, rfl, rfl, rfl⟩, rfl⟩

/-- The tables with the rows of whole teams. -/
def TeamRows.ofTeams (teams : List StoredTeam) : TeamRows :=
  { teams := teams.map (·.teamRow), blueprints := teams.map (·.blueprintRow)
    runs := teams.map (·.run), runtimes := teams.map (·.runtime) }

/-- The tables hold whole teams, one for each key and one for each blueprint. -/
structure Registered (reader : BlueprintReader) (teams : List StoredTeam) (rows : TeamRows) :
    Prop where
  rows_eq : rows = .ofTeams teams
  keys : (teams.map (·.team.idempotencyKey)).Nodup
  digests : (teams.map (·.blueprintSha256)).Nodup
  valid : ∀ team ∈ teams, team.Valid reader

/-! ### Reading -/

/-- A column whose value the digest determines, one for one. -/
theorem mem_column_iff {κ : Type} {teams : List StoredTeam} {submitted : StoredTeam}
    (column : StoredTeam → κ) {value : Sha256 → κ} (hinj : Function.Injective value)
    (hteams : ∀ team ∈ teams, column team = value team.blueprintSha256)
    (hsubmitted : column submitted = value submitted.blueprintSha256) :
    column submitted ∈ teams.map column ↔
      submitted.blueprintSha256 ∈ teams.map (·.blueprintSha256) := by
  simp only [List.mem_map]
  constructor
  · rintro ⟨team, hteam, heq⟩
    refine ⟨team, hteam, hinj ?_⟩
    rw [← hteams team hteam, heq, hsubmitted]
  · rintro ⟨team, hteam, heq⟩
    refine ⟨team, hteam, ?_⟩
    rw [hteams team hteam, heq, hsubmitted]

theorem nodup_column {κ : Type} {teams : List StoredTeam} {column : StoredTeam → κ}
    {value : Sha256 → κ} (hinj : Function.Injective value)
    (hteams : ∀ team ∈ teams, column team = value team.blueprintSha256)
    (h : (teams.map (·.blueprintSha256)).Nodup) : (teams.map column).Nodup := by
  have hcolumn : teams.map column = (teams.map (·.blueprintSha256)).map value := by
    rw [List.map_map]
    exact List.map_congr_left hteams
  rw [hcolumn]
  exact h.map hinj

theorem lookup_row {α κ : Type} [DecidableEq κ] {teams : List StoredTeam} (row : StoredTeam → α)
    (column : α → κ) (h : (teams.map fun team => column (row team)).Nodup) {team : StoredTeam}
    (hteam : team ∈ teams) : Keyed.lookup column (teams.map row) (column (row team)) =
      some (row team) := by
  refine (Keyed.lookup_eq_some column ?_).mpr ⟨List.mem_map_of_mem hteam, rfl⟩
  rw [List.map_map]
  exact h

theorem team_injective : Function.Injective Uuid.team := by
  intro a b h
  cases h
  rfl

theorem Registered.loadAggregate {teams : List StoredTeam} {rows : TeamRows}
    (h : Registered reader teams rows) {team : StoredTeam} (hteam : team ∈ teams) :
    rows.loadAggregate reader team.teamRow = .ok team := by
  have hvalid := h.valid team hteam
  have hblueprint : Keyed.lookup (·.teamId) rows.blueprints team.teamRow.id =
      some team.blueprintRow := by
    rw [h.rows_eq]
    exact lookup_row (·.blueprintRow) (·.teamId)
      (nodup_column team_injective (fun t ht => (h.valid t ht).id) h.digests) hteam
  have hrun : Keyed.lookup (·.teamId) rows.runs team.teamRow.id = some team.run := by
    have hid : team.teamRow.id = team.run.teamId := hvalid.id.trans hvalid.runTeamId.symm
    rw [h.rows_eq, hid]
    exact lookup_row (·.run) (·.teamId)
      (nodup_column team_injective (fun t ht => (h.valid t ht).runTeamId) h.digests) hteam
  have hruntime : Keyed.lookup (·.teamId) rows.runtimes team.teamRow.id = some team.runtime := by
    have hid : team.teamRow.id = team.runtime.teamId := hvalid.id.trans hvalid.runtimeTeamId.symm
    rw [h.rows_eq, hid]
    exact lookup_row (·.runtime) (·.teamId)
      (nodup_column team_injective (fun t ht => (h.valid t ht).runtimeTeamId) h.digests) hteam
  have hread : reader.fromCanonicalJson team.blueprintRow.canonicalJson = .ok team.blueprint :=
    hvalid.readable
  simp only [TeamRows.loadAggregate, hblueprint, hrun, hruntime, hread]
  rfl

/-- A lookup reads the team with the value, whole. -/
theorem Registered.getBy {κ : Type} [DecidableEq κ] {teams : List StoredTeam} {rows : TeamRows}
    (h : Registered reader teams rows) (column : V2TeamModel → κ) (value : κ) :
    rows.getBy reader column value =
      .ok (Keyed.lookup (fun team => column team.teamRow) teams value) := by
  have hlookup : Keyed.lookup column rows.teams value =
      (Keyed.lookup (fun team => column team.teamRow) teams value).map (·.teamRow) := by
    rw [h.rows_eq]
    show (teams.map (·.teamRow)).find? _ = _
    rw [List.find?_map]
    rfl
  unfold TeamRows.getBy
  rw [hlookup]
  cases hfound : Keyed.lookup (fun team => column team.teamRow) teams value with
  | none => rfl
  | some team =>
    have hteam : team ∈ teams := List.mem_of_find?_eq_some hfound
    simp only [Option.map_some, h.loadAggregate hteam]
    rfl

/-! ### Inserting -/

theorem requireUnique_of_not_mem {α κ : Type} [DecidableEq κ] {column : α → κ} {rows : List α}
    {row : α} {constraint : String} (h : column row ∉ rows.map column) :
    requireUnique column rows row constraint = .ok () :=
  if_neg h

theorem requireReference_of_mem {κ : Type} [DecidableEq κ] {values : List κ} {value : κ}
    (h : value ∈ values) (constraint : String) :
    requireReference values value constraint = .ok () :=
  if_pos h

section Insertion

variable {teams : List StoredTeam} {rows : TeamRows} {submitted : StoredTeam}

theorem Registered.id_mem_iff (h : Registered reader teams rows) (hvalid : submitted.Valid reader) :
    submitted.team.id ∈ rows.teams.map (·.id) ↔
      submitted.blueprintSha256 ∈ teams.map (·.blueprintSha256) := by
  rw [h.rows_eq, ← mem_column_iff (·.team.id) team_injective
    (fun team hteam => (h.valid team hteam).id) hvalid.id]
  show _ ∈ (teams.map (·.teamRow)).map (·.id) ↔ _
  rw [List.map_map]
  rfl

theorem Registered.key_mem_iff (h : Registered reader teams rows) :
    submitted.team.idempotencyKey ∈ rows.teams.map (·.idempotencyKey) ↔
      submitted.team.idempotencyKey ∈ teams.map (·.team.idempotencyKey) := by
  rw [h.rows_eq]
  show _ ∈ (teams.map (·.teamRow)).map (·.idempotencyKey) ↔ _
  rw [List.map_map]
  rfl

/-- A blueprint that is stored is refused, whatever the key. -/
theorem Registered.addModels_taken (h : Registered reader teams rows)
    (hvalid : submitted.Valid reader)
    (htaken : submitted.blueprintSha256 ∈ teams.map (·.blueprintSha256)) :
    addModels rows submitted = .error (.integrityError "v2_teams.id") := by
  have hid : requireUnique (·.id) rows.teams submitted.teamRow "v2_teams.id" =
      .error (.integrityError "v2_teams.id") :=
    if_pos ((h.id_mem_iff hvalid).mpr htaken)
  simp only [addModels, addTeam, hid]
  rfl

/-- A key that is bound to another blueprint is refused. -/
theorem Registered.addModels_bound (h : Registered reader teams rows)
    (hvalid : submitted.Valid reader)
    (hfree : submitted.blueprintSha256 ∉ teams.map (·.blueprintSha256))
    (hbound : submitted.team.idempotencyKey ∈ teams.map (·.team.idempotencyKey)) :
    addModels rows submitted = .error (.integrityError "v2_teams.idempotency_key") := by
  have hid : requireUnique (·.id) rows.teams submitted.teamRow "v2_teams.id" = .ok () :=
    requireUnique_of_not_mem fun hmem => hfree ((h.id_mem_iff hvalid).mp hmem)
  have hkey : requireUnique (·.idempotencyKey) rows.teams submitted.teamRow
      "v2_teams.idempotency_key" = .error (.integrityError "v2_teams.idempotency_key") :=
    if_pos (h.key_mem_iff.mpr hbound)
  simp only [addModels, addTeam, hid, hkey]
  rfl

theorem team_mem (rows : List V2TeamModel) (submitted : StoredTeam) :
    submitted.team.id ∈ (rows ++ [submitted.teamRow]).map (·.id) :=
  List.mem_map_of_mem (f := (·.id)) (List.mem_append_right rows (List.mem_singleton_self _))

/-- A column whose value the digest determines, one for one, has a new value. -/
theorem Registered.column_free {α κ : Type} [DecidableEq κ] (h : Registered reader teams rows)
    (hvalid : submitted.Valid reader)
    (hfree : submitted.blueprintSha256 ∉ teams.map (·.blueprintSha256)) (row : StoredTeam → α)
    (column : α → κ) (value : Sha256 → κ) (hinj : Function.Injective value)
    (hcolumn : ∀ team, team.Valid reader → column (row team) = value team.blueprintSha256)
    (constraint : String) :
    requireUnique column (teams.map row) (row submitted) constraint = .ok () := by
  refine requireUnique_of_not_mem fun hmem => hfree ?_
  rw [List.map_map] at hmem
  exact (mem_column_iff (fun team => column (row team)) hinj
    (fun team hteam => hcolumn team (h.valid team hteam)) (hcolumn submitted hvalid)).mp hmem

theorem Registered.addTeam_eq (h : Registered reader teams rows) (hvalid : submitted.Valid reader)
    (hfree : submitted.blueprintSha256 ∉ teams.map (·.blueprintSha256))
    (hunbound : submitted.team.idempotencyKey ∉ teams.map (·.team.idempotencyKey)) :
    addTeam rows submitted = .ok { rows with teams := rows.teams ++ [submitted.teamRow] } := by
  have hid : requireUnique (·.id) rows.teams submitted.teamRow "v2_teams.id" = .ok () :=
    requireUnique_of_not_mem fun hmem => hfree ((h.id_mem_iff hvalid).mp hmem)
  have hkey : requireUnique (·.idempotencyKey) rows.teams submitted.teamRow
      "v2_teams.idempotency_key" = .ok () :=
    requireUnique_of_not_mem fun hmem => hunbound (h.key_mem_iff.mp hmem)
  simp only [addTeam, hid, hkey]
  rfl

theorem Registered.addBlueprint_eq (h : Registered reader teams rows)
    (hvalid : submitted.Valid reader)
    (hfree : submitted.blueprintSha256 ∉ teams.map (·.blueprintSha256)) :
    addBlueprint { rows with teams := rows.teams ++ [submitted.teamRow] } submitted =
      .ok { rows with
        teams := rows.teams ++ [submitted.teamRow]
        blueprints := rows.blueprints ++ [submitted.blueprintRow] } := by
  have hrows : rows.blueprints = teams.map (·.blueprintRow) := by rw [h.rows_eq]; rfl
  have hreference := requireReference_of_mem (team_mem rows.teams submitted)
    "v2_team_blueprints.team_id"
  have hid := h.column_free hvalid hfree (·.blueprintRow) (·.id)
    (fun digest => .blueprint (.team digest)) (fun a b hab => by cases hab; rfl)
    (fun _ hvalid => hvalid.blueprintId) "v2_team_blueprints.id"
  have hteamId := h.column_free hvalid hfree (·.blueprintRow) (·.teamId) .team team_injective
    (fun _ hvalid => hvalid.id) "v2_team_blueprints.team_id"
  rw [← hrows] at hid hteamId
  simp only [addBlueprint]
  rw [show submitted.blueprintRow.teamId = submitted.team.id from rfl, hreference]
  simp only [hid, hteamId]
  rfl

theorem Registered.addRun_eq (h : Registered reader teams rows) (hvalid : submitted.Valid reader)
    (hfree : submitted.blueprintSha256 ∉ teams.map (·.blueprintSha256))
    (blueprints : List V2TeamBlueprintModel) :
    addRun { rows with teams := rows.teams ++ [submitted.teamRow], blueprints } submitted =
      .ok { rows with
        teams := rows.teams ++ [submitted.teamRow], blueprints
        runs := rows.runs ++ [submitted.run] } := by
  have hrows : rows.runs = teams.map (·.run) := by rw [h.rows_eq]; rfl
  have hreference := requireReference_of_mem (team_mem rows.teams submitted) "v2_runs.team_id"
  have hid := h.column_free hvalid hfree (·.run) (·.id) (fun digest => .run (.team digest) 0)
    (fun a b hab => by cases hab; rfl) (fun _ hvalid => hvalid.runId) "v2_runs.id"
  have hordinal := h.column_free hvalid hfree (·.run) (fun run => (run.teamId, run.ordinal))
    (fun digest => (.team digest, 0)) (fun a b hab => team_injective (Prod.mk.inj hab).1)
    (fun _ hvalid => Prod.ext hvalid.runTeamId hvalid.runOrdinal) "uq_v2_runs_team_ordinal"
  rw [← hrows] at hid hordinal
  have hparent : submitted.run.teamId = submitted.team.id := hvalid.runTeamId.trans hvalid.id.symm
  simp only [addRun, hparent, hreference, hid, hordinal]
  rfl

theorem Registered.addRuntime_eq (h : Registered reader teams rows)
    (hvalid : submitted.Valid reader)
    (hfree : submitted.blueprintSha256 ∉ teams.map (·.blueprintSha256))
    (blueprints : List V2TeamBlueprintModel) :
    addRuntime { rows with
        teams := rows.teams ++ [submitted.teamRow], blueprints
        runs := rows.runs ++ [submitted.run] } submitted =
      .ok { rows with
        teams := rows.teams ++ [submitted.teamRow], blueprints
        runs := rows.runs ++ [submitted.run]
        runtimes := rows.runtimes ++ [submitted.runtime] } := by
  have hrows : rows.runtimes = teams.map (·.runtime) := by rw [h.rows_eq]; rfl
  have hparent : submitted.runtime.teamId = submitted.team.id :=
    hvalid.runtimeTeamId.trans hvalid.id.symm
  have hteam : requireReference ((rows.teams ++ [submitted.teamRow]).map (·.id))
      submitted.runtime.teamId "v2_team_runtimes.team_id" = .ok () :=
    requireReference_of_mem (hparent ▸ team_mem rows.teams submitted) _
  have hrun : requireReference ((rows.runs ++ [submitted.run]).map (·.id)) submitted.runtime.runId
      "v2_team_runtimes.run_id" = .ok () := by
    refine requireReference_of_mem ?_ _
    rw [hvalid.runtimeRunId, ← hvalid.runId]
    exact List.mem_map_of_mem (List.mem_append_right _ (List.mem_singleton_self _))
  have hid := h.column_free hvalid hfree (·.runtime) (·.id) (fun digest => .runtime (.team digest))
    (fun a b hab => by cases hab; rfl) (fun _ hvalid => hvalid.runtimeId) "v2_team_runtimes.id"
  have hteamId := h.column_free hvalid hfree (·.runtime) (·.teamId) .team team_injective
    (fun _ hvalid => hvalid.runtimeTeamId) "v2_team_runtimes.team_id"
  have hrunId := h.column_free hvalid hfree (·.runtime) (·.runId)
    (fun digest => .run (.team digest) 0) (fun a b hab => by cases hab; rfl)
    (fun _ hvalid => hvalid.runtimeRunId) "v2_team_runtimes.run_id"
  rw [← hrows] at hid hteamId hrunId
  simp only [addRuntime, hteam, hrun, hid, hteamId, hrunId]
  rfl

/-- A team whose key and blueprint are new is stored whole. -/
theorem Registered.addModels_free (h : Registered reader teams rows)
    (hvalid : submitted.Valid reader)
    (hfree : submitted.blueprintSha256 ∉ teams.map (·.blueprintSha256))
    (hunbound : submitted.team.idempotencyKey ∉ teams.map (·.team.idempotencyKey)) :
    addModels rows submitted = .ok (.ofTeams (teams ++ [submitted])) := by
  simp only [addModels, h.addTeam_eq hvalid hfree hunbound, h.addBlueprint_eq hvalid hfree,
    h.addRun_eq hvalid hfree, h.addRuntime_eq hvalid hfree, ok_bind]
  rw [h.rows_eq]
  simp only [TeamRows.ofTeams, List.map_append, List.map_singleton]

theorem Registered.append (h : Registered reader teams rows) (hvalid : submitted.Valid reader)
    (hfree : submitted.blueprintSha256 ∉ teams.map (·.blueprintSha256))
    (hunbound : submitted.team.idempotencyKey ∉ teams.map (·.team.idempotencyKey)) :
    Registered reader (teams ++ [submitted]) (.ofTeams (teams ++ [submitted])) where
  rows_eq := rfl
  keys := by
    rw [List.map_append, List.map_singleton]
    exact h.keys.append (List.nodup_singleton _) (List.disjoint_singleton.mpr hunbound)
  digests := by
    rw [List.map_append, List.map_singleton]
    exact h.digests.append (List.nodup_singleton _) (List.disjoint_singleton.mpr hfree)
  valid team hteam := by
    rcases List.mem_append.mp hteam with hold | hnew
    · exact h.valid team hold
    · exact List.mem_singleton.mp hnew ▸ hvalid

end Insertion

/-! ### Progress of a run -/

/-- The team after a run wrote its runtime row. -/
def StoredTeam.written (progress : TeamRuntime) (team : StoredTeam) : StoredTeam :=
  if team.runtime.id = progress.id then team.withProgress progress else team

theorem StoredTeam.sameTeam_written (progress : TeamRuntime) (team : StoredTeam) :
    team.SameTeam (team.written progress) := by
  unfold StoredTeam.written
  split_ifs
  · exact team.sameTeam_withProgress progress
  · exact .refl team

theorem Registered.withProgress {teams : List StoredTeam} {rows : TeamRows}
    (h : Registered reader teams rows) (progress : TeamRuntime) :
    Registered reader (teams.map (·.written progress)) (rows.withProgress progress) where
  rows_eq := by
    -- progress writes the runtime of one team, and no other row
    have hteam : ∀ team : StoredTeam, (team.written progress).teamRow = team.teamRow := by
      intro team
      unfold StoredTeam.written
      split_ifs <;> rfl
    have hblueprint : ∀ team : StoredTeam,
        (team.written progress).blueprintRow = team.blueprintRow := by
      intro team
      unfold StoredTeam.written
      split_ifs <;> rfl
    have hrun : ∀ team : StoredTeam, (team.written progress).run = team.run := by
      intro team
      unfold StoredTeam.written
      split_ifs <;> rfl
    have hruntime : ∀ team : StoredTeam, (team.written progress).runtime =
        if team.runtime.id = progress.id then team.runtime.withProgress progress
        else team.runtime := by
      intro team
      unfold StoredTeam.written
      split_ifs <;> rfl
    simp only [h.rows_eq, TeamRows.ofTeams, TeamRows.withProgress, List.map_map, Function.comp_def,
      hteam, hblueprint, hrun, hruntime]
  keys := by
    have hkey : ∀ team : StoredTeam,
        (team.written progress).team.idempotencyKey = team.team.idempotencyKey :=
      fun team => congrArg _ (team.sameTeam_written progress).team_eq
    simp only [List.map_map, Function.comp_def, hkey]
    exact h.keys
  digests := by
    have hdigest : ∀ team : StoredTeam,
        (team.written progress).blueprintSha256 = team.blueprintSha256 :=
      fun team => (team.sameTeam_written progress).blueprintSha256_eq
    simp only [List.map_map, Function.comp_def, hdigest]
    exact h.digests
  valid team hteam := by
    obtain ⟨old, hold, rfl⟩ := List.mem_map.mp hteam
    exact (h.valid old hold).of_sameTeam (old.sameTeam_written progress)

/-! ### Calls -/

/-- Every team is still there. -/
def Grows (teams teams' : List StoredTeam) : Prop :=
  ∀ team ∈ teams, ∃ team' ∈ teams', team.SameTeam team'

/-- What a call that has ended returned, by the teams that are stored. -/
inductive Outcome (reader : BlueprintReader) (teams : List StoredTeam)
    (command : CreateTeamCommand) : Except CreationError StoredTeam → Prop
  /-- The team of the key, which has the blueprint of the command. -/
  | served {submitted team returned : StoredTeam}
      (hsubmitted : command.aggregate reader = .ok submitted) (hteam : team ∈ teams)
      (hkey : team.team.idempotencyKey = command.idempotencyKey)
      (hdigest : team.blueprintSha256 = submitted.blueprintSha256)
      (hsame : returned.SameTeam team) : Outcome reader teams command (.ok returned)
  /-- The key is bound to another blueprint. -/
  | conflict {submitted team : StoredTeam} (hsubmitted : command.aggregate reader = .ok submitted)
      (hteam : team ∈ teams) (hkey : team.team.idempotencyKey = command.idempotencyKey)
      (hdigest : team.blueprintSha256 ≠ submitted.blueprintSha256) :
      Outcome reader teams command (.error (.teamCreationConflict
        "idempotency key is already associated with a different blueprint"))
  /-- The blueprint is stored under another key. -/
  | taken {submitted team : StoredTeam} (hsubmitted : command.aggregate reader = .ok submitted)
      (hteam : team ∈ teams) (hkey : team.team.idempotencyKey ≠ command.idempotencyKey)
      (hdigest : team.blueprintSha256 = submitted.blueprintSha256) :
      Outcome reader teams command (.error (.raised (.integrityError "v2_teams.id")))
  /-- The command is rejected before a transaction. -/
  | invalid {error : CreationError} (h : command.aggregate reader = .error error) :
      Outcome reader teams command (.error error)
  /-- The database failed. -/
  | failed : Outcome reader teams command (.error .operationalError)

theorem Outcome.mono {teams teams' : List StoredTeam} {command : CreateTeamCommand}
    {result : Except CreationError StoredTeam} (h : Outcome reader teams command result)
    (hgrows : Grows teams teams') : Outcome reader teams' command result := by
  cases h with
  | served hsubmitted hteam hkey hdigest hsame =>
    obtain ⟨team', hteam', hlater⟩ := hgrows _ hteam
    exact .served hsubmitted hteam' (by rw [hlater.team_eq, hkey])
      (by rw [hlater.blueprintSha256_eq, hdigest]) (hsame.trans hlater)
  | conflict hsubmitted hteam hkey hdigest =>
    obtain ⟨team', hteam', hlater⟩ := hgrows _ hteam
    exact .conflict hsubmitted hteam' (by rw [hlater.team_eq, hkey])
      (by rwa [hlater.blueprintSha256_eq])
  | taken hsubmitted hteam hkey hdigest =>
    obtain ⟨team', hteam', hlater⟩ := hgrows _ hteam
    exact .taken hsubmitted hteam' (by rwa [hlater.team_eq])
      (by rw [hlater.blueprintSha256_eq, hdigest])
  | invalid h => exact .invalid h
  | failed => exact .failed

/-- What holds of a call at its stage. -/
def CallStage.Consistent (reader : BlueprintReader) (teams : List StoredTeam)
    (command : CreateTeamCommand) : CallStage → Prop
  | .waiting => True
  | .inserting submitted => command.aggregate reader = .ok submitted
  | .refused submitted error => command.aggregate reader = .ok submitted ∧
      ((∃ team ∈ teams, team.team.idempotencyKey = submitted.team.idempotencyKey) ∨
        (∃ team ∈ teams, team.blueprintSha256 = submitted.blueprintSha256) ∧
          error = .integrityError "v2_teams.id")
  | .ended result => Outcome reader teams command result

theorem CallStage.Consistent.mono {teams teams' : List StoredTeam} {command : CreateTeamCommand}
    {stage : CallStage} (h : stage.Consistent reader teams command) (hgrows : Grows teams teams') :
    stage.Consistent reader teams' command := by
  cases stage with
  | waiting => trivial
  | inserting submitted => exact h
  | refused submitted error =>
    obtain ⟨hsubmitted, ⟨team, hteam, hkey⟩ | ⟨⟨team, hteam, hdigest⟩, herror⟩⟩ := h
    · obtain ⟨team', hteam', hlater⟩ := hgrows team hteam
      exact ⟨hsubmitted, .inl ⟨team', hteam', by rw [hlater.team_eq, hkey]⟩⟩
    · obtain ⟨team', hteam', hlater⟩ := hgrows team hteam
      exact ⟨hsubmitted,
        .inr ⟨⟨team', hteam', by rw [hlater.blueprintSha256_eq, hdigest]⟩, herror⟩⟩
  | ended result => exact Outcome.mono h hgrows

section Step

variable {teams : List StoredTeam} {rows : TeamRows} {command : CreateTeamCommand}

theorem Registered.lookup_eq_ended (h : Registered reader teams rows) {team submitted : StoredTeam}
    (hteam : team ∈ teams)
    (hkey : team.team.idempotencyKey = submitted.team.idempotencyKey) (otherwise : CallStage) :
    CallStage.lookup reader rows submitted otherwise = .ended (resolveExisting team submitted) := by
  have hget := h.getBy (·.idempotencyKey) submitted.team.idempotencyKey
  have hfound : Keyed.lookup (fun team : StoredTeam => team.teamRow.idempotencyKey) teams
      submitted.team.idempotencyKey = some team :=
    (Keyed.lookup_eq_some _ h.keys).mpr ⟨hteam, hkey⟩
  rw [hfound] at hget
  simp only [CallStage.lookup, TeamRows.getByIdempotencyKey, hget]

theorem Registered.lookup_eq_otherwise (h : Registered reader teams rows) {submitted : StoredTeam}
    (hunbound : submitted.team.idempotencyKey ∉ teams.map (·.team.idempotencyKey))
    (otherwise : CallStage) : CallStage.lookup reader rows submitted otherwise = otherwise := by
  have hget := h.getBy (·.idempotencyKey) submitted.team.idempotencyKey
  have hfound : Keyed.lookup (fun team : StoredTeam => team.teamRow.idempotencyKey) teams
      submitted.team.idempotencyKey = none :=
    (Keyed.lookup_eq_none _).mpr hunbound
  rw [hfound] at hget
  simp only [CallStage.lookup, TeamRows.getByIdempotencyKey, hget]

/-- The lookup of a key finds its team, or goes on. -/
theorem Registered.lookup_cases (h : Registered reader teams rows) (submitted : StoredTeam)
    (otherwise : CallStage) :
    (∃ team ∈ teams, team.team.idempotencyKey = submitted.team.idempotencyKey ∧
      CallStage.lookup reader rows submitted otherwise =
        .ended (resolveExisting team submitted)) ∨
    (submitted.team.idempotencyKey ∉ teams.map (·.team.idempotencyKey) ∧
      CallStage.lookup reader rows submitted otherwise = otherwise) := by
  by_cases hbound : submitted.team.idempotencyKey ∈ teams.map (·.team.idempotencyKey)
  · obtain ⟨team, hteam, hkey⟩ := List.mem_map.mp hbound
    exact .inl ⟨team, hteam, hkey, h.lookup_eq_ended hteam hkey otherwise⟩
  · exact .inr ⟨hbound, h.lookup_eq_otherwise hbound otherwise⟩

theorem outcome_of_found {team submitted : StoredTeam}
    (hsubmitted : command.aggregate reader = .ok submitted) (hteam : team ∈ teams)
    (hkey : team.team.idempotencyKey = submitted.team.idempotencyKey) :
    Outcome reader teams command (resolveExisting team submitted) := by
  have hcommand := hkey.trans (CreateTeamCommand.aggregate_eq_ok hsubmitted).2
  unfold resolveExisting
  split_ifs with hdigest
  · exact .conflict hsubmitted hteam hcommand hdigest
  · exact .served hsubmitted hteam hcommand (not_not.mp hdigest) (.refl team)

/-- What one step of a call does: it stores the team it submitted, or leaves the tables. -/
theorem CallStage.Consistent.next {stage : CallStage} (hregistered : Registered reader teams rows)
    (h : stage.Consistent reader teams command) :
    ((stage.next reader command rows).1 = rows ∧
      (stage.next reader command rows).2.Consistent reader teams command) ∨
    ∃ submitted, command.aggregate reader = .ok submitted ∧
      stage = .inserting submitted ∧
      stage.next reader command rows = (.ofTeams (teams ++ [submitted]), .ended (.ok submitted)) ∧
      Registered reader (teams ++ [submitted]) (.ofTeams (teams ++ [submitted])) := by
  cases stage with
  | waiting =>
    refine .inl ?_
    unfold CallStage.next
    cases hsubmitted : command.aggregate reader with
    | error error => exact ⟨rfl, .invalid hsubmitted⟩
    | ok submitted =>
      refine ⟨rfl, ?_⟩
      rcases hregistered.lookup_cases submitted (.inserting submitted) with
        ⟨team, hteam, hkey, hlookup⟩ | ⟨-, hlookup⟩
      · show (CallStage.lookup reader rows submitted _).Consistent reader teams command
        rw [hlookup]
        exact outcome_of_found hsubmitted hteam hkey
      · show (CallStage.lookup reader rows submitted _).Consistent reader teams command
        rw [hlookup]
        exact hsubmitted
  | inserting submitted =>
    have hvalid := (CreateTeamCommand.aggregate_eq_ok h).1
    by_cases htaken : submitted.blueprintSha256 ∈ teams.map (·.blueprintSha256)
    · refine .inl ?_
      simp only [CallStage.next, hregistered.addModels_taken hvalid htaken]
      obtain ⟨team, hteam, hdigest⟩ := List.mem_map.mp htaken
      exact ⟨trivial, h, .inr ⟨⟨team, hteam, hdigest⟩, rfl⟩⟩
    · by_cases hbound : submitted.team.idempotencyKey ∈ teams.map (·.team.idempotencyKey)
      · refine .inl ?_
        simp only [CallStage.next, hregistered.addModels_bound hvalid htaken hbound]
        obtain ⟨team, hteam, hkey⟩ := List.mem_map.mp hbound
        exact ⟨trivial, h, .inl ⟨team, hteam, hkey⟩⟩
      · refine .inr ⟨submitted, h, rfl, ?_, hregistered.append hvalid htaken hbound⟩
        simp only [CallStage.next, hregistered.addModels_free hvalid htaken hbound]
  | refused submitted error =>
    refine .inl ?_
    obtain ⟨hsubmitted, hcause⟩ := h
    refine ⟨rfl, ?_⟩
    show (CallStage.lookup reader rows submitted _).Consistent reader teams command
    rcases hregistered.lookup_cases submitted (.ended (.error (.raised error))) with
      ⟨team, hteam, hkey, hlookup⟩ | ⟨hunbound, hlookup⟩
    · rw [hlookup]
      exact outcome_of_found hsubmitted hteam hkey
    · rw [hlookup]
      -- the key is free, so the blueprint was stored under another one
      rcases hcause with ⟨team, hteam, hkey⟩ | ⟨⟨team, hteam, hdigest⟩, rfl⟩
      · exact absurd (hkey ▸ List.mem_map_of_mem hteam) hunbound
      · refine .taken hsubmitted hteam (fun hkey => hunbound ?_) hdigest
        rw [(CreateTeamCommand.aggregate_eq_ok hsubmitted).2, ← hkey]
        exact List.mem_map_of_mem hteam
  | ended result => exact .inl ⟨rfl, h⟩

theorem waiting_next {submitted : StoredTeam}
    (hsubmitted : command.aggregate reader = .ok submitted) :
    CallStage.waiting.next reader command rows =
      (rows, .lookup reader rows submitted (.inserting submitted)) := by
  simp only [CallStage.next, hsubmitted]

/-- A call that ends in a step ends in the same way when it is served at once at that moment. -/
theorem createTeam_of_next {stage : CallStage} (hregistered : Registered reader teams rows)
    (h : stage.Consistent reader teams command) {rows' : TeamRows}
    {result : Except CreationError StoredTeam} (hserved : stage.served = .waiting)
    (hnext : stage.next reader command rows = (rows', .ended result)) :
    createTeam reader command rows = (rows', .ended result) := by
  cases stage with
  | waiting =>
    simp only [createTeam, hnext]
    rfl
  | inserting submitted =>
    have hvalid := (CreateTeamCommand.aggregate_eq_ok h).1
    -- a call that runs alone comes to the same stage
    have hwaiting : CallStage.waiting.next reader command rows = (rows, .inserting submitted) := by
      rw [waiting_next h]
      rcases hregistered.lookup_cases submitted (.inserting submitted) with
        ⟨team, hteam, hkey, -⟩ | ⟨-, hlookup⟩
      · -- a key that is bound would have been refused
        exfalso
        have hbound : submitted.team.idempotencyKey ∈ teams.map (·.team.idempotencyKey) :=
          hkey ▸ List.mem_map_of_mem hteam
        by_cases htaken : submitted.blueprintSha256 ∈ teams.map (·.blueprintSha256)
        · simp [CallStage.next, hregistered.addModels_taken hvalid htaken] at hnext
        · simp [CallStage.next, hregistered.addModels_bound hvalid htaken hbound] at hnext
      · rw [hlookup]
    simp only [createTeam, hwaiting, hnext]
    rfl
  | refused submitted error =>
    obtain ⟨hsubmitted, hcause⟩ := h
    have hvalid := (CreateTeamCommand.aggregate_eq_ok hsubmitted).1
    have hend : CallStage.lookup reader rows submitted (.ended (.error (.raised error))) =
        .ended result := (Prod.mk.inj hnext).2
    have hrows : rows = rows' := (Prod.mk.inj hnext).1
    subst hrows
    rcases hregistered.lookup_cases submitted (.ended (.error (.raised error))) with
      ⟨team, hteam, hkey, hlookup⟩ | ⟨hunbound, hlookup⟩
    · -- the team was created in between, so the call alone finds it at once
      obtain rfl := CallStage.ended.inj (hlookup.symm.trans hend)
      have hbound : submitted.team.idempotencyKey ∈ teams.map (·.team.idempotencyKey) :=
        hkey ▸ List.mem_map_of_mem hteam
      have hwaiting : CallStage.waiting.next reader command rows =
          (rows, .ended (resolveExisting team submitted)) := by
        rw [waiting_next hsubmitted, hregistered.lookup_eq_ended hteam hkey]
      simp only [createTeam, hwaiting]
      rfl
    · -- the key is free and the id is taken, so the call alone is refused as well
      obtain rfl := CallStage.ended.inj (hlookup.symm.trans hend)
      obtain ⟨⟨team, hteam, hdigest⟩, rfl⟩ := hcause.resolve_left fun ⟨team, hteam, hkey⟩ =>
        hunbound (hkey ▸ List.mem_map_of_mem hteam)
      have htaken : submitted.blueprintSha256 ∈ teams.map (·.blueprintSha256) :=
        hdigest ▸ List.mem_map_of_mem hteam
      have hwaiting : CallStage.waiting.next reader command rows =
          (rows, .inserting submitted) := by
        rw [waiting_next hsubmitted, hregistered.lookup_eq_otherwise hunbound]
      have hinserting : (CallStage.inserting submitted).next reader command rows =
          (rows, .refused submitted (.integrityError "v2_teams.id")) := by
        simp only [CallStage.next, hregistered.addModels_taken hvalid htaken]
      simp only [createTeam, hwaiting, hinserting, hnext]
  | ended result => cases hserved

end Step

/-! ### Systems -/

/-- What holds of a system of calls. -/
structure Served (reader : BlueprintReader) (teams : List StoredTeam) (system : CreationSystem) :
    Prop where
  registered : Registered reader teams system.rows
  calls : ∀ call ∈ system.calls, call.stage.Consistent reader teams call.command
  origin : ∀ team ∈ teams, ∃ call ∈ system.calls, ∃ submitted,
    call.command.aggregate reader = .ok submitted ∧ call.stage = .ended (.ok submitted) ∧
      submitted.SameTeam team

theorem update_of_some {system : CreationSystem} {index : ℕ} {call : CreationCall}
    (hcall : system.calls[index]? = some call) (advance : CreationCall → TeamRows × CallStage) :
    system.update index advance =
      { rows := (advance call).1
        calls := system.calls.set index { call with stage := (advance call).2 } } := by
  simp only [CreationSystem.update, hcall]

theorem update_of_none {system : CreationSystem} {index : ℕ} (hcall : system.calls[index]? = none)
    (advance : CreationCall → TeamRows × CallStage) : system.update index advance = system := by
  simp only [CreationSystem.update, hcall]

theorem served_cases (stage : CallStage) :
    (∃ result, stage = .ended result) ∨ stage.served = .waiting := by
  cases stage with
  | ended result => exact .inl ⟨result, rfl⟩
  | waiting => exact .inr rfl
  | inserting submitted => exact .inr rfl
  | refused submitted error => exact .inr rfl

theorem abort_cases (stage : CallStage) :
    (∃ result, stage = .ended result ∧ stage.abort = stage) ∨
      stage.served = .waiting ∧ stage.abort = .ended (.error .operationalError) := by
  cases stage with
  | ended result => exact .inl ⟨result, rfl, rfl⟩
  | waiting => exact .inr ⟨rfl, rfl⟩
  | inserting submitted => exact .inr ⟨rfl, rfl⟩
  | refused submitted error => exact .inr ⟨rfl, rfl⟩

/-- A call that has ended stays as it is. -/
theorem Served.origin_set {teams : List StoredTeam} {system : CreationSystem} {index : ℕ}
    {call : CreationCall} (h : Served reader teams system)
    (hcall : system.calls[index]? = some call) {stage : CallStage}
    (hkeeps : ∀ result, call.stage = .ended result → stage = .ended result) :
    ∀ team ∈ teams, ∃ other ∈ system.calls.set index { call with stage }, ∃ submitted,
      other.command.aggregate reader = .ok submitted ∧ other.stage = .ended (.ok submitted) ∧
        submitted.SameTeam team := by
  intro team hteam
  obtain ⟨other, hother, submitted, hsubmitted, hended, hsame⟩ := h.origin team hteam
  obtain ⟨place, hplace⟩ := List.mem_iff_getElem?.mp hother
  by_cases hindex : index = place
  · subst hindex
    obtain rfl := Option.some.inj (hplace.symm.trans hcall)
    refine ⟨{ other with stage }, ?_, submitted, hsubmitted, hkeeps _ hended, hsame⟩
    have hlt : index < system.calls.length := (List.getElem?_eq_some_iff.mp hplace).1
    exact List.mem_set hlt _
  · refine ⟨other, ?_, submitted, hsubmitted, hended, hsame⟩
    exact List.mem_iff_getElem?.mpr ⟨place, by rw [List.getElem?_set_ne hindex]; exact hplace⟩

theorem Served.calls_set {teams teams' : List StoredTeam} {system : CreationSystem} {index : ℕ}
    {call : CreationCall} (h : Served reader teams system) (hgrows : Grows teams teams')
    {stage : CallStage} (hstage : stage.Consistent reader teams' call.command) :
    ∀ other ∈ system.calls.set index { call with stage },
      other.stage.Consistent reader teams' other.command := by
  intro other hother
  rcases List.mem_or_eq_of_mem_set hother with hold | rfl
  · exact (h.calls other hold).mono hgrows
  · exact hstage

theorem grows_refl (teams : List StoredTeam) : Grows teams teams :=
  fun team hteam => ⟨team, hteam, .refl team⟩

section Steps

variable {teams : List StoredTeam} {system : CreationSystem} {index : ℕ} {call : CreationCall}

/-- A step of a call keeps what holds of the system. -/
theorem Served.advance (h : Served reader teams system) (hcall : system.calls[index]? = some call) :
    ∃ teams', Served reader teams' (system.update index fun call =>
      call.stage.next reader call.command system.rows) := by
  rw [update_of_some hcall]
  rcases (h.calls call (List.mem_of_getElem? hcall)).next h.registered with ⟨hrows, hstage⟩ |
    ⟨submitted, hsubmitted, hinserting, hnext, hregistered⟩
  · refine ⟨teams, ⟨?_, h.calls_set (grows_refl teams) hstage, h.origin_set hcall ?_⟩⟩
    · show Registered reader teams (call.stage.next reader call.command system.rows).1
      rw [hrows]
      exact h.registered
    · intro result hended
      show (call.stage.next reader call.command system.rows).2 = _
      rw [hended]
      rfl
  · rw [hnext]
    have hgrows : Grows teams (teams ++ [submitted]) :=
      fun team hteam => ⟨team, List.mem_append_left _ hteam, .refl team⟩
    have hlast : submitted ∈ teams ++ [submitted] := by simp
    refine ⟨teams ++ [submitted], ⟨hregistered, h.calls_set hgrows ?_, ?_⟩⟩
    · exact .served hsubmitted hlast (CreateTeamCommand.aggregate_eq_ok hsubmitted).2 rfl
        (.refl submitted)
    · intro team hteam
      rcases List.mem_append.mp hteam with hold | hnew
      · refine h.origin_set hcall ?_ team hold
        intro result hended
        rw [hinserting] at hended
        cases hended
      · -- the call that inserted the team is its origin
        obtain rfl := List.mem_singleton.mp hnew
        have hlt : index < system.calls.length := (List.getElem?_eq_some_iff.mp hcall).1
        exact ⟨_, List.mem_set hlt _, team, hsubmitted, rfl, .refl team⟩

theorem Served.abort (h : Served reader teams system) (hcall : system.calls[index]? = some call) :
    Served reader teams (system.update index fun call => (system.rows, call.stage.abort)) := by
  rw [update_of_some hcall]
  refine ⟨h.registered, h.calls_set (grows_refl teams) ?_, h.origin_set hcall ?_⟩
  · rcases abort_cases call.stage with ⟨result, -, hsame⟩ | ⟨-, hended⟩
    · rw [hsame]
      exact h.calls call (List.mem_of_getElem? hcall)
    · rw [hended]
      exact .failed
  · intro result hended
    show call.stage.abort = _
    rw [hended]
    rfl

theorem Served.run (h : Served reader teams system) (progress : TeamRuntime) :
    Served reader (teams.map (·.written progress))
      { system with rows := system.rows.withProgress progress } where
  registered := h.registered.withProgress progress
  calls call hcall := (h.calls call hcall).mono fun team hteam =>
    ⟨team.written progress, List.mem_map_of_mem hteam, team.sameTeam_written progress⟩
  origin team hteam := by
    obtain ⟨old, hold, rfl⟩ := List.mem_map.mp hteam
    obtain ⟨call, hcall, submitted, hsubmitted, hended, hsame⟩ := h.origin old hold
    exact ⟨call, hcall, submitted, hsubmitted, hended,
      hsame.trans (old.sameTeam_written progress)⟩

end Steps

theorem served_of_reachable {system : CreationSystem}
    (h : (concurrentCreations reader).Reachable system) : ∃ teams, Served reader teams system := by
  refine h.invariant (I := fun system => ∃ teams, Served reader teams system) ?_ ?_
  · rintro commands system rfl
    refine ⟨[], ⟨⟨rfl, List.nodup_nil, List.nodup_nil, by simp⟩, ?_, by simp⟩⟩
    intro call hcall
    obtain ⟨command, -, rfl⟩ := List.mem_map.mp hcall
    trivial
  · rintro system event system' - ⟨teams, hserved⟩ rfl
    cases event with
    | call index =>
      simp only [CreationSystem.next]
      cases hcall : system.calls[index]? with
      | none => exact ⟨teams, (update_of_none hcall _).symm ▸ hserved⟩
      | some call => exact hserved.advance hcall
    | abort index =>
      simp only [CreationSystem.next]
      cases hcall : system.calls[index]? with
      | none => exact ⟨teams, (update_of_none hcall _).symm ▸ hserved⟩
      | some call => exact ⟨teams, hserved.abort hcall⟩
    | run progress => exact ⟨_, hserved.run progress⟩

theorem Registered.eq_of_key {teams : List StoredTeam} {rows : TeamRows}
    (h : Registered reader teams rows) {first second : StoredTeam} (hfirst : first ∈ teams)
    (hsecond : second ∈ teams)
    (hkey : first.team.idempotencyKey = second.team.idempotencyKey) : first = second :=
  List.inj_on_of_nodup_map h.keys hfirst hsecond hkey

theorem Registered.eq_of_digest {teams : List StoredTeam} {rows : TeamRows}
    (h : Registered reader teams rows) {first second : StoredTeam} (hfirst : first ∈ teams)
    (hsecond : second ∈ teams) (hdigest : first.blueprintSha256 = second.blueprintSha256) :
    first = second :=
  List.inj_on_of_nodup_map h.digests hfirst hsecond hdigest

theorem Registered.get_eq {teams : List StoredTeam} {rows : TeamRows}
    (h : Registered reader teams rows) {team : StoredTeam} (hteam : team ∈ teams) :
    rows.getById reader team.team.id = .ok (some team) ∧
      rows.getByIdempotencyKey reader team.team.idempotencyKey = .ok (some team) := by
  have hids := nodup_column team_injective (fun team hteam => (h.valid team hteam).id) h.digests
  constructor
  · unfold TeamRows.getById
    rw [h.getBy]
    exact congrArg Except.ok ((Keyed.lookup_eq_some _ hids).mpr ⟨hteam, rfl⟩)
  · unfold TeamRows.getByIdempotencyKey
    rw [h.getBy]
    exact congrArg Except.ok ((Keyed.lookup_eq_some _ h.keys).mpr ⟨hteam, rfl⟩)

/-- The team that a call returned is the stored one. -/
theorem Outcome.stored {teams : List StoredTeam} {command : CreateTeamCommand}
    {returned : StoredTeam} (h : Outcome reader teams command (.ok returned)) :
    ∃ team ∈ teams, returned.SameTeam team ∧
      team.team.idempotencyKey = command.idempotencyKey := by
  cases h with
  | served _ hteam hkey _ hsame => exact ⟨_, hteam, hsame, hkey⟩

/-- In every interleaving of the calls the tables hold whole teams, one for each key and one for
each blueprint, each inserted by a call that was asked for it.  What a call returned says which
teams are stored, and two calls that both returned a team have the same key, or the same blueprint,
when they returned the same team. -/
theorem creations_agree {system : CreationSystem}
    (h : (concurrentCreations reader).Reachable system) :
    ∃ teams, Served reader teams system ∧
      (∀ team ∈ teams, system.rows.getById reader team.team.id = .ok (some team) ∧
        system.rows.getByIdempotencyKey reader team.team.idempotencyKey = .ok (some team)) ∧
      ∀ first ∈ system.calls, ∀ second ∈ system.calls, ∀ returned returned',
        first.stage = .ended (.ok returned) → second.stage = .ended (.ok returned') →
        (first.command.idempotencyKey = second.command.idempotencyKey ↔
          returned.SameTeam returned') ∧
        (returned.blueprintSha256 = returned'.blueprintSha256 ↔ returned.SameTeam returned') := by
  obtain ⟨teams, hserved⟩ := served_of_reachable h
  refine ⟨teams, hserved, fun team hteam => hserved.registered.get_eq hteam, ?_⟩
  intro first hfirst second hsecond returned returned' hended hended'
  have hconsistent := hserved.calls first hfirst
  have hconsistent' := hserved.calls second hsecond
  rw [hended] at hconsistent
  rw [hended'] at hconsistent'
  obtain ⟨team, hteam, hsame, hkey⟩ := Outcome.stored hconsistent
  obtain ⟨team', hteam', hsame', hkey'⟩ := Outcome.stored hconsistent'
  have hstored : team = team' → returned.SameTeam returned' := by
    rintro rfl
    exact hsame.trans hsame'.symm
  constructor
  · constructor
    · intro hkeys
      exact hstored (hserved.registered.eq_of_key hteam hteam' (by rw [hkey, hkey', hkeys]))
    · intro hreturned
      have hteams := ((hsame.symm.trans hreturned).trans hsame').team_eq
      rw [← hkey, ← hkey', hteams]
  · constructor
    · intro hdigests
      refine hstored (hserved.registered.eq_of_digest hteam hteam' ?_)
      rw [hsame.blueprintSha256_eq, hsame'.blueprintSha256_eq, hdigests]
    · intro hreturned
      exact hreturned.blueprintSha256_eq.symm

/-! ### Serial order -/

theorem served_set (calls : List CreationCall) (index : ℕ) (call : CreationCall) :
    (calls.set index call).map (fun call => { call with stage := call.stage.served }) =
      (calls.map fun call => { call with stage := call.stage.served }).set index
        { call with stage := call.stage.served } :=
  List.map_set

theorem served_get {calls : List CreationCall} {index : ℕ} {call : CreationCall}
    (h : calls[index]? = some call) :
    (calls.map fun call => { call with stage := call.stage.served })[index]? =
      some { call with stage := call.stage.served } := by
  rw [List.getElem?_map, h]
  rfl

/-- A step that a client does not see. -/
theorem served_unseen {system : CreationSystem} {index : ℕ} {call : CreationCall}
    (hcall : system.calls[index]? = some call) {stage : CallStage}
    (hsame : stage.served = call.stage.served) :
    ({ rows := system.rows, calls := system.calls.set index { call with stage } } :
      CreationSystem).served = system.served := by
  obtain ⟨hlt, hget⟩ := List.getElem?_eq_some_iff.mp (served_get hcall)
  unfold CreationSystem.served
  rw [served_set]
  simp only [hsame]
  rw [← hget, List.set_getElem_self]

/-- A step that ends a call is the whole call for its client. -/
theorem served_ends {system : CreationSystem} {index : ℕ} {call : CreationCall}
    (hcall : system.calls[index]? = some call) {rows : TeamRows}
    {result : Except CreationError StoredTeam} (hwaiting : call.stage.served = .waiting)
    (event : CreationEvent)
    (hnext : ∀ calls, (calls[index]? : Option CreationCall) =
        some { call with stage := .waiting } →
      CreationSystem.next (CallStage.whole reader) { rows := system.rows, calls } event =
        { rows, calls := calls.set index { call with stage := .ended result } }) :
    (serialCreations reader).step system.served event
      ({ rows, calls := system.calls.set index { call with stage := .ended result } } :
        CreationSystem).served := by
  have hget := served_get hcall
  rw [hwaiting] at hget
  show CreationSystem.served _ = _
  unfold CreationSystem.served
  rw [hnext _ hget, served_set]
  rfl

section Serving

variable {teams : List StoredTeam} {system : CreationSystem} {index : ℕ} {call : CreationCall}

/-- A step of a call is unseen, or serves the whole call. -/
theorem serves_call (h : Served reader teams system) (hcall : system.calls[index]? = some call) :
    (serialCreations reader).ReachesBy (fun _ _ => True) system.served
      (system.update index fun call => call.stage.next reader call.command system.rows).served := by
  have hconsistent := h.calls call (List.mem_of_getElem? hcall)
  rw [update_of_some hcall]
  rcases served_cases call.stage with ⟨result, hended⟩ | hwaiting
  · have hnext : call.stage.next reader call.command system.rows = (system.rows, call.stage) := by
      rw [hended]
      rfl
    rw [hnext, served_unseen hcall rfl]
    exact .refl
  · rcases served_cases (call.stage.next reader call.command system.rows).2 with
      ⟨result, hended⟩ | hstill
    · have hwhole := createTeam_of_next h.registered hconsistent hwaiting (Prod.ext rfl hended)
      rw [hended]
      refine .single ⟨.call index, trivial, served_ends hcall hwaiting _ fun calls hget => ?_⟩
      simp only [CreationSystem.next]
      rw [update_of_some hget]
      simp only [CallStage.whole, hwhole]
    · -- nothing was stored, and the call goes on
      have hrows : (call.stage.next reader call.command system.rows).1 = system.rows := by
        rcases hconsistent.next h.registered with ⟨hrows, -⟩ | ⟨_, _, _, hnext, _⟩
        · exact hrows
        · rw [hnext] at hstill
          cases hstill
      rw [hrows, served_unseen hcall (hstill.trans hwaiting.symm)]
      exact .refl

theorem serves_abort (hcall : system.calls[index]? = some call) :
    (serialCreations reader).ReachesBy (fun _ _ => True) system.served
      (system.update index fun call => (system.rows, call.stage.abort)).served := by
  rw [update_of_some hcall]
  rcases abort_cases call.stage with ⟨result, -, hsame⟩ | ⟨hwaiting, hended⟩
  · rw [served_unseen hcall (congrArg CallStage.served hsame)]
    exact .refl
  · rw [hended]
    refine .single ⟨.abort index, trivial, served_ends hcall hwaiting _ fun calls hget => ?_⟩
    simp only [CreationSystem.next]
    rw [update_of_some hget]
    rfl

end Serving

/-- Whatever the interleaving, the tables and the results are those of some order in which the calls
were served one after the other. -/
theorem creations_serialize {system : CreationSystem}
    (h : (concurrentCreations reader).Reachable system) :
    (serialCreations reader).Reachable system.served := by
  refine h.simulated CreationSystem.served ?_ ?_
  · rintro commands system rfl -
    refine .start (i := commands) ?_ trivial
    show CreationSystem.served _ = _
    simp only [CreationSystem.served, CreationSystem.initial, List.map_map, Function.comp_def,
      CallStage.served]
  · rintro system event system' hreach - rfl
    obtain ⟨teams, hserved⟩ := served_of_reachable hreach
    cases event with
    | call index =>
      simp only [CreationSystem.next]
      cases hcall : system.calls[index]? with
      | none => exact (update_of_none hcall _).symm ▸ .refl
      | some call => exact serves_call hserved hcall
    | abort index =>
      simp only [CreationSystem.next]
      cases hcall : system.calls[index]? with
      | none => exact (update_of_none hcall _).symm ▸ .refl
      | some call => exact serves_abort hcall
    | run progress => exact .single ⟨.run progress, trivial, rfl⟩

/-! ### Two calls at once -/

/-- A reader that knows the document of the small team. -/
def smallReader : BlueprintReader where
  fromCanonicalJson document :=
    if document = "small" then .ok rejectingBlueprint
    else .error "blueprint must be valid finite JSON"
  canonicalDocument document blueprint h := by
    split_ifs at h with hdocument
    cases h
    exact hdocument.symm

/-- Two calls with one key; the second one is refused and finds the team of the first. -/
def race : CreationSystem :=
  [.call 0, .call 1, .call 0, .call 1, .call 1].foldl
    (CreationSystem.next (CallStage.next smallReader))
    (.initial [⟨"key", "small", .aware 0⟩, ⟨"key", "small", .aware 5⟩])

theorem reachable_foldl (events : List CreationEvent) {system : CreationSystem}
    (h : (concurrentCreations reader).Reachable system) :
    (concurrentCreations reader).Reachable
      (events.foldl (CreationSystem.next (CallStage.next reader)) system) := by
  induction events generalizing system with
  | nil => exact h
  | cons event events ih => exact ih (.step h trivial rfl)

theorem race_reachable : (concurrentCreations smallReader).Reachable race :=
  reachable_foldl _ (.start rfl trivial)

/-- The time at which the team was created that a call returned. -/
def CreationCall.returnedAt (call : CreationCall) : Option ℤ :=
  match call.stage with
  | .ended (.ok returned) => some returned.team.createdAt
  | _ => none

theorem race_returned : race.calls.map (·.returnedAt) = [some 0, some 0] := by
  decide +kernel

theorem creations_agree_race :
    race.calls.map (·.returnedAt) = [some 0, some 0] ∧ ∃ teams, Served smallReader teams race := by
  obtain ⟨teams, hserved, -, -⟩ := creations_agree race_reachable
  exact ⟨race_returned, teams, hserved⟩

theorem creations_serialize_race :
    race.calls.map (·.returnedAt) = [some 0, some 0] ∧
      (serialCreations smallReader).Reachable race.served :=
  ⟨race_returned, creations_serialize race_reachable⟩

end JiraSimulator
