import JiraSimulator.Correctness.Rows
import JiraSimulator.Correctness.ValidState
import JiraSimulator.Persistence.ScrumStateMapper

/-!
# The collections of a state under updates

`Collection` names one of the eleven collections with its identity, so that what an update does to
the rows is proved once for all of them.

* `Collection.mem_updateWith`: the rows of an updated state.
* `updateWith_updateWith`: two updates in a row are one.
* `Consistent.openVisit_unique` and its siblings: the uniqueness checks, within one team run.
-/

namespace JiraSimulator

open Library Library.Outcome ScrumCollections

/-! ### One team run -/

theorem allEqual_iff {ids : List Uuid} :
    allEqual ids = true ↔ ∀ a ∈ ids, ∀ b ∈ ids, a = b := by
  cases ids with
  | nil => simp [allEqual]
  | cons id rest =>
    simp only [allEqual, List.all_eq_true, decide_eq_true_eq]
    constructor
    · intro h a ha b hb
      have hid : ∀ c ∈ id :: rest, c = id := by
        intro c hc
        rcases List.mem_cons.mp hc with rfl | hc
        · rfl
        · exact h c hc
      rw [hid a ha, hid b hb]
    · intro h a ha
      exact h a (List.mem_cons_of_mem _ ha) id List.mem_cons_self

namespace ScrumCollections

variable {p : Platform} {c w : ScrumCollections}

/-- Every row belongs to the team. -/
structure InTeam (c : ScrumCollections) (team : Uuid) : Prop where
  memberIdentities : ∀ row ∈ c.memberIdentities, row.teamId = team
  memberAvailabilityOverlays : ∀ row ∈ c.memberAvailabilityOverlays, row.teamId = team
  memberBusinessDateConsumption : ∀ row ∈ c.memberBusinessDateConsumption, row.teamId = team
  workItems : ∀ row ∈ c.workItems, row.teamId = team
  workItemFactors : ∀ row ∈ c.workItemFactors, row.teamId = team
  sprints : ∀ row ∈ c.sprints, row.teamId = team
  sprintScope : ∀ row ∈ c.sprintScope, row.teamId = team
  statusVisits : ∀ row ∈ c.statusVisits, row.teamId = team
  statusVisitSamples : ∀ row ∈ c.statusVisitSamples, row.teamId = team
  semanticCounters : ∀ row ∈ c.semanticCounters, row.teamId = team
  naturalDecisionEvaluations : ∀ row ∈ c.naturalDecisionEvaluations, row.teamId = team

/-- Every row that has a run belongs to it. -/
structure InRun (c : ScrumCollections) (run : Uuid) : Prop where
  memberAvailabilityOverlays : ∀ row ∈ c.memberAvailabilityOverlays, row.runId = run
  memberBusinessDateConsumption : ∀ row ∈ c.memberBusinessDateConsumption, row.runId = run
  workItems : ∀ row ∈ c.workItems, row.runId = run
  workItemFactors : ∀ row ∈ c.workItemFactors, row.runId = run
  sprints : ∀ row ∈ c.sprints, row.runId = run
  sprintScope : ∀ row ∈ c.sprintScope, row.runId = run
  statusVisits : ∀ row ∈ c.statusVisits, row.runId = run
  statusVisitSamples : ∀ row ∈ c.statusVisitSamples, row.runId = run
  semanticCounters : ∀ row ∈ c.semanticCounters, row.runId = run
  naturalDecisionEvaluations : ∀ row ∈ c.naturalDecisionEvaluations, row.runId = run

theorem forall_teamIds {team : Uuid} :
    (∀ id ∈ c.teamIds, id = team) ↔ c.InTeam team := by
  simp only [teamIds, List.forall_mem_append, List.forall_mem_map, and_assoc]
  constructor
  · rintro ⟨h₁, h₂, h₃, h₄, h₅, h₆, h₇, h₈, h₉, h₁₀, h₁₁⟩
    exact ⟨h₁, h₂, h₃, h₄, h₅, h₆, h₇, h₈, h₉, h₁₀, h₁₁⟩
  · rintro ⟨h₁, h₂, h₃, h₄, h₅, h₆, h₇, h₈, h₉, h₁₀, h₁₁⟩
    exact ⟨h₁, h₂, h₃, h₄, h₅, h₆, h₇, h₈, h₉, h₁₀, h₁₁⟩

theorem forall_runIds {run : Uuid} :
    (∀ id ∈ c.runIds, id = run) ↔ c.InRun run := by
  simp only [runIds, List.forall_mem_append, List.forall_mem_map, and_assoc]
  constructor
  · rintro ⟨h₁, h₂, h₃, h₄, h₅, h₆, h₇, h₈, h₉, h₁₀⟩
    exact ⟨h₁, h₂, h₃, h₄, h₅, h₆, h₇, h₈, h₉, h₁₀⟩
  · rintro ⟨h₁, h₂, h₃, h₄, h₅, h₆, h₇, h₈, h₉, h₁₀⟩
    exact ⟨h₁, h₂, h₃, h₄, h₅, h₆, h₇, h₈, h₉, h₁₀⟩

theorem exists_forall_eq {ids : List Uuid} (h : allEqual ids = true) :
    ∃ id, ∀ a ∈ ids, a = id := by
  cases ids with
  | nil => exact ⟨.team ⟨""⟩, by simp⟩
  | cons id rest => exact ⟨id, fun a ha => allEqual_iff.mp h a ha id List.mem_cons_self⟩

theorem Consistent.exists_team (h : c.Consistent p) : ∃ team, c.InTeam team := by
  obtain ⟨team, hteam⟩ := exists_forall_eq h.oneTeam
  exact ⟨team, forall_teamIds.mp hteam⟩

theorem Consistent.exists_run (h : c.Consistent p) : ∃ run, c.InRun run := by
  obtain ⟨run, hrun⟩ := exists_forall_eq h.oneRun
  exact ⟨run, forall_runIds.mp hrun⟩

theorem InTeam.oneTeam {team : Uuid} (h : c.InTeam team) : allEqual c.teamIds = true := by
  have hall := forall_teamIds.mpr h
  exact allEqual_iff.mpr fun a ha b hb => (hall a ha).trans (hall b hb).symm

theorem InRun.oneRun {run : Uuid} (h : c.InRun run) : allEqual c.runIds = true := by
  have hall := forall_runIds.mpr h
  exact allEqual_iff.mpr fun a ha b hb => (hall a ha).trans (hall b hb).symm

/-! ### Rows -/

theorem Consistent.visit_valid (h : c.Consistent p) {visit : StatusVisitState}
    (hvisit : visit ∈ c.statusVisits) : visit.Valid :=
  StatusVisitState.validate_eq_ok.mp (h.rowsValid.statusVisits visit hvisit)

theorem Consistent.workItem_valid (h : c.Consistent p) {work : WorkItemState}
    (hwork : work ∈ c.workItems) : work.Valid :=
  WorkItemState.validate_eq_ok.mp (h.rowsValid.workItems work hwork)

theorem Consistent.sprint_valid (h : c.Consistent p) {sprint : SprintState}
    (hsprint : sprint ∈ c.sprints) : sprint.Valid :=
  SprintState.validate_eq_ok.mp (h.rowsValid.sprints sprint hsprint)

/-! ### Uniqueness within one team run -/

theorem Consistent.openVisit_unique (h : c.Consistent p) {a b : StatusVisitState}
    (ha : a ∈ c.statusVisits) (hb : b ∈ c.statusVisits) (hao : a.lifecycle = .OPEN)
    (hbo : b.lifecycle = .OPEN) (hwork : a.workItemId = b.workItemId) : a = b := by
  obtain ⟨team, hteam⟩ := h.exists_team
  obtain ⟨run, hrun⟩ := h.exists_run
  refine List.inj_on_of_nodup_map h.partiallyUnique.openVisits
    (List.mem_filter.mpr ⟨ha, by simpa using hao⟩) (List.mem_filter.mpr ⟨hb, by simpa using hbo⟩) ?_
  rw [hteam.statusVisits a ha, hteam.statusVisits b hb, hrun.statusVisits a ha,
    hrun.statusVisits b hb, hwork]

theorem Consistent.currentScope_unique (h : c.Consistent p) {a b : SprintScopeEntry}
    (ha : a ∈ c.sprintScope) (hb : b ∈ c.sprintScope) (hac : a.removedAt = none)
    (hbc : b.removedAt = none) (hwork : a.workItemId = b.workItemId) : a = b := by
  obtain ⟨team, hteam⟩ := h.exists_team
  obtain ⟨run, hrun⟩ := h.exists_run
  refine List.inj_on_of_nodup_map h.partiallyUnique.currentScope
    (List.mem_filter.mpr ⟨ha, by simp [hac]⟩) (List.mem_filter.mpr ⟨hb, by simp [hbc]⟩) ?_
  rw [hteam.sprintScope a ha, hteam.sprintScope b hb, hrun.sprintScope a ha,
    hrun.sprintScope b hb, hwork]

theorem Consistent.activeSprint_unique (h : c.Consistent p) {a b : SprintState}
    (ha : a ∈ c.sprints) (hb : b ∈ c.sprints) (haa : a.lifecycle = .ACTIVE)
    (hba : b.lifecycle = .ACTIVE) : a = b := by
  obtain ⟨team, hteam⟩ := h.exists_team
  obtain ⟨run, hrun⟩ := h.exists_run
  refine List.inj_on_of_nodup_map h.partiallyUnique.activeSprints
    (List.mem_filter.mpr ⟨ha, by simpa using haa⟩) (List.mem_filter.mpr ⟨hb, by simpa using hba⟩) ?_
  rw [hteam.sprints a ha, hteam.sprints b hb, hrun.sprints a ha,
    hrun.sprints b hb]

theorem Consistent.consumption_nodup (h : c.Consistent p) :
    (c.memberBusinessDateConsumption.map MemberBusinessDateConsumption.key).Nodup := by
  obtain ⟨team, hteam⟩ := h.exists_team
  obtain ⟨run, hrun⟩ := h.exists_run
  refine List.Nodup.map_on ?_ h.keysUnique.memberBusinessDateConsumption.of_map
  intro a ha b hb hkey
  simp only [MemberBusinessDateConsumption.key, Prod.mk.injEq] at hkey
  refine List.inj_on_of_nodup_map h.keysUnique.memberBusinessDateConsumption ha hb ?_
  simp only [consumptionCoordinate, hteam.memberBusinessDateConsumption a ha,
    hteam.memberBusinessDateConsumption b hb, hrun.memberBusinessDateConsumption a ha,
    hrun.memberBusinessDateConsumption b hb, hkey.1, hkey.2]

theorem Consistent.counters_nodup (h : c.Consistent p) :
    (c.semanticCounters.map (·.scope)).Nodup := by
  obtain ⟨team, hteam⟩ := h.exists_team
  obtain ⟨run, hrun⟩ := h.exists_run
  refine List.Nodup.map_on ?_ h.keysUnique.semanticCounters.of_map
  intro a ha b hb hscope
  refine List.inj_on_of_nodup_map h.keysUnique.semanticCounters ha hb ?_
  simp only [counterCoordinate, hteam.semanticCounters a ha, hteam.semanticCounters b hb,
    hrun.semanticCounters a ha, hrun.semanticCounters b hb, hscope]

end ScrumCollections

/-! ### Collections -/

/-- One collection of a Scrum state, with the identity of its rows. -/
structure Collection (α κ : Type) [DecidableEq κ] where
  rows : ScrumCollections → List α
  key : α → κ
  rows_empty : rows {} = []
  rows_updateWith : ∀ c w : ScrumCollections,
    rows (c.updateWith w) = Keyed.update key (Keyed.ofList key (rows c)) (rows w)
  rows_sorted : ∀ (p : Platform) (c : ScrumCollections), (rows (c.sorted p)).Perm (rows c)
  nodup : ∀ {p : Platform} {c : ScrumCollections}, c.Consistent p → ((rows c).map key).Nodup

namespace Collection

@[reducible] def memberIdentities : Collection MemberIdentity Uuid where
  rows := (·.memberIdentities)
  key := (·.id)
  rows_empty := rfl
  rows_updateWith _ _ := rfl
  rows_sorted _ _ := Ordering.sortOn_perm _ _
  nodup h := h.keysUnique.memberIdentities

@[reducible] def overlays : Collection MemberAvailabilityOverlay Uuid where
  rows := (·.memberAvailabilityOverlays)
  key := (·.id)
  rows_empty := rfl
  rows_updateWith _ _ := rfl
  rows_sorted _ _ := Ordering.sortOn_perm _ _
  nodup h := h.keysUnique.memberAvailabilityOverlays

@[reducible] def consumption : Collection MemberBusinessDateConsumption (Uuid × ℤ) where
  rows := (·.memberBusinessDateConsumption)
  key := (·.key)
  rows_empty := rfl
  rows_updateWith _ _ := rfl
  rows_sorted _ _ := Ordering.sortOn_perm _ _
  nodup h := h.consumption_nodup

@[reducible] def workItems : Collection WorkItemState Uuid where
  rows := (·.workItems)
  key := (·.id)
  rows_empty := rfl
  rows_updateWith _ _ := rfl
  rows_sorted _ _ := Ordering.sortOn_perm _ _
  nodup h := h.keysUnique.workItems

@[reducible] def factors : Collection WorkItemFactor Uuid where
  rows := (·.workItemFactors)
  key := (·.id)
  rows_empty := rfl
  rows_updateWith _ _ := rfl
  rows_sorted _ _ := Ordering.sortOn_perm _ _
  nodup h := h.keysUnique.workItemFactors

@[reducible] def sprints : Collection SprintState Uuid where
  rows := (·.sprints)
  key := (·.id)
  rows_empty := rfl
  rows_updateWith _ _ := rfl
  rows_sorted _ _ := Ordering.sortOn_perm _ _
  nodup h := h.keysUnique.sprints

@[reducible] def sprintScope : Collection SprintScopeEntry Uuid where
  rows := (·.sprintScope)
  key := (·.id)
  rows_empty := rfl
  rows_updateWith _ _ := rfl
  rows_sorted _ _ := Ordering.sortOn_perm _ _
  nodup h := h.keysUnique.sprintScope

@[reducible] def statusVisits : Collection StatusVisitState Uuid where
  rows := (·.statusVisits)
  key := (·.id)
  rows_empty := rfl
  rows_updateWith _ _ := rfl
  rows_sorted _ _ := Ordering.sortOn_perm _ _
  nodup h := h.keysUnique.statusVisits

@[reducible] def samples : Collection StatusVisitSample Uuid where
  rows := (·.statusVisitSamples)
  key := (·.visitId)
  rows_empty := rfl
  rows_updateWith _ _ := rfl
  rows_sorted _ _ := Ordering.sortOn_perm _ _
  nodup h := h.keysUnique.statusVisitSamples

@[reducible] def counters : Collection SemanticCounter SemanticCounterScope where
  rows := (·.semanticCounters)
  key := (·.scope)
  rows_empty := rfl
  rows_updateWith _ _ := rfl
  rows_sorted _ _ := Ordering.sortOn_perm _ _
  nodup h := h.counters_nodup

@[reducible] def evaluations : Collection NaturalDecisionEvaluation Uuid where
  rows := (·.naturalDecisionEvaluations)
  key := (·.id)
  rows_empty := rfl
  rows_updateWith _ _ := rfl
  rows_sorted _ _ := Ordering.sortOn_perm _ _
  nodup h := h.keysUnique.naturalDecisionEvaluations

variable {α κ : Type} [DecidableEq κ] (col : Collection α κ) {p : Platform}
  {c w : ScrumCollections}

/-- The rows of an updated state: the changes, and the rows that they leave alone. -/
theorem mem_updateWith (hc : c.Consistent p) (hw : w.Consistent p) {a : α} :
    a ∈ col.rows (c.updateWith w) ↔
      a ∈ col.rows w ∨ (a ∈ col.rows c ∧ col.key a ∉ (col.rows w).map col.key) := by
  rw [col.rows_updateWith, Keyed.ofList_of_nodup _ (col.nodup hc),
    Keyed.mem_update _ (col.nodup hw)]

theorem rows_updateWith_of_nil (hc : c.Consistent p) (hw : col.rows w = []) :
    col.rows (c.updateWith w) = col.rows c := by
  rw [col.rows_updateWith, Keyed.ofList_of_nodup _ (col.nodup hc), hw, Keyed.update_nil]

theorem rows_updateWith_of_subset (hc : c.Consistent p) (hw : col.rows w ⊆ col.rows c) :
    col.rows (c.updateWith w) = col.rows c := by
  rw [col.rows_updateWith, Keyed.ofList_of_nodup _ (col.nodup hc),
    Keyed.update_of_subset _ (col.nodup hc) hw]

theorem rows_updateWith_empty (hc : c.Consistent p) : col.rows (c.updateWith {}) = col.rows c :=
  col.rows_updateWith_of_nil hc col.rows_empty

theorem nodup_updateWith : ((col.rows (c.updateWith w)).map col.key).Nodup := by
  rw [col.rows_updateWith]
  exact Keyed.nodup_update _ _ (Keyed.nodup_ofList _ _)

theorem eq_of_key_eq (hc : c.Consistent p) {a b : α} (ha : a ∈ col.rows c) (hb : b ∈ col.rows c)
    (hkey : col.key a = col.key b) : a = b :=
  List.inj_on_of_nodup_map (col.nodup hc) ha hb hkey

theorem mem_sorted {a : α} : a ∈ col.rows (c.sorted p) ↔ a ∈ col.rows c :=
  (col.rows_sorted p c).mem_iff

theorem rows_updateWith_updateWith (c : ScrumCollections) (hw : w.Consistent p)
    (w' : ScrumCollections) :
    col.rows ((c.updateWith w).updateWith w') = col.rows (c.updateWith (w.updateWith w')) := by
  simp only [col.rows_updateWith]
  rw [Keyed.ofList_of_nodup _ (Keyed.nodup_update _ _ (Keyed.nodup_ofList _ _)),
    Keyed.ofList_of_nodup _ (col.nodup hw), Keyed.update_update _ (col.nodup hw)]

end Collection

/-- States are equal when all their collections are. -/
theorem ScrumCollections.ext_rows {c c' : ScrumCollections}
    (h : ∀ {α κ : Type} [DecidableEq κ] (col : Collection α κ), col.rows c = col.rows c') :
    c = c' :=
  ScrumCollections.ext (h .memberIdentities) (h .overlays) (h .consumption) (h .workItems)
    (h .factors) (h .sprints) (h .sprintScope) (h .statusVisits) (h .samples) (h .counters)
    (h .evaluations)

/-- Two updates in a row are one update by the updated changes. -/
theorem ScrumCollections.updateWith_updateWith {p : Platform} (c : ScrumCollections)
    {w : ScrumCollections} (hw : w.Consistent p) (w' : ScrumCollections) :
    (c.updateWith w).updateWith w' = c.updateWith (w.updateWith w') :=
  ext_rows fun col => col.rows_updateWith_updateWith c hw w'

theorem ScrumCollections.updateWith_empty {p : Platform} {c : ScrumCollections}
    (hc : c.Consistent p) : c.updateWith {} = c :=
  ext_rows fun col => col.rows_updateWith_empty hc

end JiraSimulator
