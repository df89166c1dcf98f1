import JiraSimulator.Domain.ScrumCollections

/-!
# What an accepted blueprint satisfies

The checks of a blueprint that later proofs use, as propositions about its parts.  Status keys and
the issue types of routes are unique, so the ways in which the code looks them up agree.
-/

namespace JiraSimulator

open Library.Outcome

@[simp] theorem requireField_eq_ok {c : Prop} [Decidable c] {field : String} {u : Unit} :
    requireField c field = .ok u ↔ c :=
  check_eq_ok

@[simp] theorem requireProbability_eq_ok {value : ℚ} {field : String} {u : Unit} :
    requireProbability value field = .ok u ↔ 0 ≤ value ∧ value ≤ 1 := by
  simp [requireProbability]

namespace ResolvedTeamBlueprint

variable (blueprint : ResolvedTeamBlueprint)

/-- The checks of the whole document. -/
theorem accepted_parts :
    (∀ member ∈ blueprint.members, member.validate = .ok ()) ∧
      (∀ entry ∈ blueprint.timing.entries, entry.validate = .ok ()) ∧
      validateUniqueIdentity blueprint.toBlueprintDocument = .ok () ∧
      validateRoutes blueprint.toBlueprintDocument = .ok () ∧
      validateTimingGrid blueprint.toBlueprintDocument = .ok () := by
  have h := blueprint.accepted
  simp only [BlueprintDocument.validate, bind_eq_ok, exists_unit, forM_eq_ok] at h
  obtain ⟨-, hmembers, htiming, -, -, -, hunique, hroutes, hgrid, -⟩ := h
  exact ⟨hmembers, htiming, hunique, hroutes, hgrid⟩

theorem statusKeys_nodup : (blueprint.workflow.statuses.map (·.key)).Nodup := by
  have h := blueprint.accepted_parts.2.2.1
  simp only [validateUniqueIdentity, requireNonEmptyUnique, bind_eq_ok, exists_unit,
    require_eq_ok] at h
  exact h.2.1.2

theorem routeTypes_nodup : (blueprint.workflow.routes.map (·.issueType)).Nodup := by
  have h := blueprint.accepted_parts.2.2.1
  simp only [validateUniqueIdentity, requireNonEmptyUnique, bind_eq_ok, exists_unit,
    require_eq_ok] at h
  exact h.2.2.2.2

theorem timingCells_nodup : (blueprint.timing.entries.map TimingEntry.cell).Nodup := by
  have h := blueprint.accepted_parts.2.2.2.2
  simp only [validateTimingGrid, bind_eq_ok, exists_unit, require_eq_ok] at h
  exact h.1

theorem ruleKeys_nodup : (blueprint.risks.rules.map (·.key)).Nodup := by
  have h := blueprint.accepted
  simp only [BlueprintDocument.validate, validateRisks, bind_eq_ok, exists_unit,
    require_eq_ok] at h
  exact h.2.2.2.2.2.2.2.2.2.1.2

/-- Every step of a route names a status, which maps the activity of the step. -/
theorem routeStep_status {route : WorkflowRoute} (hroute : route ∈ blueprint.workflow.routes)
    {step : WorkflowRouteStep} (hstep : step ∈ route.steps) :
    ∃ status ∈ blueprint.workflow.statuses, status.key = step.statusKey ∧
      ∀ activity, step.requiredActivity = some activity → activity ∈ status.activities := by
  have h := blueprint.accepted_parts.2.2.2.1
  simp only [validateRoutes, forM_eq_ok, bind_eq_ok, exists_unit, require_eq_ok] at h
  have hvalid := (h route hroute).2 step hstep
  unfold validateRouteStep at hvalid
  cases hfind : blueprint.workflow.statuses.find? fun status => status.key = step.statusKey with
  | none => simp [hfind] at hvalid
  | some status =>
    refine ⟨status, List.mem_of_find?_eq_some hfind, by simpa using List.find?_some hfind, ?_⟩
    intro activity hactivity
    simp only [hfind, hactivity, bind_eq_ok, exists_unit, require_eq_ok] at hvalid
    exact hvalid.1

/-- The status of a key is unique. -/
theorem status_unique {a b : WorkflowStatus} (ha : a ∈ blueprint.workflow.statuses)
    (hb : b ∈ blueprint.workflow.statuses) (hkey : a.key = b.key) : a = b :=
  List.inj_on_of_nodup_map blueprint.statusKeys_nodup ha hb hkey

theorem availability_mem {member : MemberBlueprint} (hmember : member ∈ blueprint.members)
    {interval : AvailabilityInterval} (hinterval : interval ∈ member.availability) :
    0 ≤ interval.availabilityFraction ∧ interval.availabilityFraction ≤ 1 := by
  have h := blueprint.accepted_parts.1 member hmember
  simp only [MemberBlueprint.validate, bind_eq_ok, exists_unit, forM_eq_ok] at h
  have hvalid := h.2.2.2.1 interval hinterval
  simp only [AvailabilityInterval.validate, bind_eq_ok, exists_unit, requireProbability_eq_ok]
    at hvalid
  exact hvalid.1

theorem dailyCapacityHours_le {member : MemberBlueprint} (hmember : member ∈ blueprint.members) :
    0 < member.dailyCapacityHours ∧ member.dailyCapacityHours ≤ 24 := by
  have h := blueprint.accepted_parts.1 member hmember
  simp only [MemberBlueprint.validate, bind_eq_ok, exists_unit, requireField_eq_ok] at h
  exact h.1

end ResolvedTeamBlueprint

/-! ### Looking up by a unique key -/

/-- The only element with a key is what every lookup by the key finds. -/
theorem filter_eq_singleton {α κ : Type} [DecidableEq κ] {key : α → κ} {items : List α}
    (hnodup : (items.map key).Nodup) {a : α} (ha : a ∈ items) :
    (items.filter fun item => key item = key a) = [a] := by
  induction items with
  | nil => cases ha
  | cons item items ih =>
    rw [List.map_cons, List.nodup_cons] at hnodup
    rcases List.mem_cons.mp ha with rfl | hmem
    · have hrest : (items.filter fun item => key item = key a) = [] := by
        rw [List.filter_eq_nil_iff]
        intro b hb
        have hne : key b ≠ key a := fun hkey => hnodup.1 (hkey ▸ List.mem_map_of_mem hb)
        simpa using hne
      simp [hrest]
    · have hne : key item ≠ key a := fun hkey => hnodup.1 (hkey ▸ List.mem_map_of_mem hmem)
      rw [List.filter_cons_of_neg (by simpa using hne), ih hnodup.2 hmem]

end JiraSimulator
