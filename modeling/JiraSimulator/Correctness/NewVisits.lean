import JiraSimulator.Correctness.Rows
import JiraSimulator.Domain.Risks

/-!
# Visits that an item has just entered

A rejected review, a completed visit and the activation of an item all enter a visit in the same
way: an open row with all its work remaining, and the sample that the blueprint and the draws
determine. `EntersVisit` says so once for the three.
-/

namespace JiraSimulator

open Library Library.Outcome

variable {p : Platform}

/-! ### Samples -/

theorem statusSampleValues_eq_ok {input : StatusVisitSampleInput} {sample : StatusVisitSample}
    (h : statusSampleValues p input = .ok sample) :
    input.validate p = .ok () ∧ sample.visitId = input.visit.id ∧
      sample.teamId = input.workItem.teamId ∧ sample.runId = input.workItem.runId ∧
      sample.requiredWorkMicroseconds = input.visit.requiredWorkMicroseconds := by
  simp only [statusSampleValues, bind_eq_ok, exists_unit, require_eq_ok, pure_eq_ok] at h
  obtain ⟨hinput, entry, -, anchors, -, dwell, -, bounds, -, touch, -, required, -, hrequired, rfl⟩ :=
    h
  exact ⟨hinput, rfl, rfl, rfl, hrequired.symm⟩

theorem StatusVisitSample.create_eq_ok {input : StatusVisitSampleInput}
    {sample : StatusVisitSample} : StatusVisitSample.create p input = .ok sample ↔
      statusSampleValues p input = .ok sample ∧ sample.validate p = .ok () := by
  simp only [StatusVisitSample.create, bind_eq_ok, exists_unit, pure_eq_ok]
  constructor
  · rintro ⟨sample', hvalues, hvalid, rfl⟩
    exact ⟨hvalues, hvalid⟩
  · rintro ⟨hvalues, hvalid⟩
    exact ⟨sample, hvalues, hvalid, rfl⟩

/-- The inputs of the sample of a visit, with the draws of the visit. -/
def visitSampleInput (blueprint : ResolvedTeamBlueprint) (work : WorkItemState)
    (visit : StatusVisitState) (draws : DrawSource) : StatusVisitSampleInput where
  blueprint := blueprint
  workItem := work
  visit := visit
  dwellDraw := draws (.first visit.id .STATUS_DWELL)
  touchDraw := draws (.first visit.id .STATUS_TOUCH)

/-! ### Entering a visit -/

/-- The visit and the sample are those that the item enters at the step. -/
structure EntersVisit (p : Platform) (blueprint : ResolvedTeamBlueprint) (draws : DrawSource)
    (work : WorkItemState) (step : WorkflowRouteStep) (ordinal : ℕ) (memberId : Option Uuid)
    (enteredAt : ℤ) (visit : StatusVisitState) (sample : StatusVisitSample) : Prop where
  entered : ∃ required, visit =
    enteredVisit (.visit work.id ordinal) work ordinal step memberId enteredAt required
  visitValid : visit.Valid
  values : statusSampleValues p (visitSampleInput blueprint work visit draws) = .ok sample
  sampleValid : sample.validate p = .ok ()

namespace EntersVisit

variable {blueprint : ResolvedTeamBlueprint} {draws : DrawSource} {work : WorkItemState}
  {step : WorkflowRouteStep} {ordinal : ℕ} {memberId : Option Uuid} {enteredAt : ℤ}
  {visit : StatusVisitState} {sample : StatusVisitSample}

section fields

variable (h : EntersVisit p blueprint draws work step ordinal memberId enteredAt visit sample)

include h

theorem id_eq : visit.id = .visit work.id ordinal := by
  obtain ⟨required, rfl⟩ := h.entered
  rfl

theorem workItemId_eq : visit.workItemId = work.id := by
  obtain ⟨required, rfl⟩ := h.entered
  rfl

theorem ordinal_eq : visit.ordinal = ordinal := by
  obtain ⟨required, rfl⟩ := h.entered
  rfl

theorem lifecycle_eq : visit.lifecycle = .OPEN := by
  obtain ⟨required, rfl⟩ := h.entered
  rfl

theorem statusKey_eq : visit.statusKey = step.statusKey := by
  obtain ⟨required, rfl⟩ := h.entered
  rfl

theorem memberId_eq : visit.memberId = memberId := by
  obtain ⟨required, rfl⟩ := h.entered
  rfl

theorem closedAt_eq : visit.closedAt = none := by
  obtain ⟨required, rfl⟩ := h.entered
  rfl

theorem enteredAt_eq : visit.enteredAt = enteredAt := by
  obtain ⟨required, rfl⟩ := h.entered
  rfl

theorem credited_eq : visit.creditedLaborMicroseconds = 0 := by
  obtain ⟨required, rfl⟩ := h.entered
  rfl

theorem pause_eq : visit.pauseMicroseconds = 0 := by
  obtain ⟨required, rfl⟩ := h.entered
  rfl

theorem sample_visitId : sample.visitId = visit.id :=
  (statusSampleValues_eq_ok h.values).2.1

end fields

end EntersVisit

/-! ### The three ways to enter a visit -/

theorem newSampledVisit_eq_ok {blueprint : ResolvedTeamBlueprint} {draws : DrawSource}
    {work : WorkItemState} {step : WorkflowRouteStep} {ordinal : ℕ} {enteredAt : ℤ}
    {visit : StatusVisitState} {sample : StatusVisitSample}
    (h : newSampledVisit p blueprint work step ordinal enteredAt draws = .ok (visit, sample)) :
    EntersVisit p blueprint draws work step ordinal none enteredAt visit sample := by
  simp only [newSampledVisit, bind_eq_ok, exists_unit, visitRngId_eq_ok, validated_eq_ok,
    StatusVisitState.validate_eq_ok, StatusVisitSample.create_eq_ok, pure_eq_ok,
    Prod.mk.injEq] at h
  obtain ⟨id, ⟨-, rfl⟩, required, -, visit', ⟨hvalid, rfl⟩, -, sample', ⟨hvalues, hsample⟩,
    rfl, rfl⟩ := h
  exact ⟨⟨required, rfl⟩, hvalid, hvalues, hsample⟩

/-- An activated item is done when its route has no timed step, and otherwise enters the first. -/
theorem activateItem_eq_ok {blueprint : ResolvedTeamBlueprint} {startedAt : ℤ}
    {members : List MemberIdentity} {draws : DrawSource} {item : WorkItemState}
    {activated : ActivatedItem}
    (h : activateItem p blueprint startedAt members draws item = .ok activated) :
    ∃ route, routeForIssueType blueprint item.issueType = .ok route ∧
      ((∃ terminal ∈ route.steps, route.steps.getLast? = some terminal ∧
          firstTimedStep blueprint route.steps = .ok none ∧ activated.item.Valid ∧
          activated = {
            item := { item with
              lifecycle := .DONE, currentStatusKey := terminal.statusKey, updatedAt := startedAt }
            visits := [], samples := [] }) ∨
        ∃ step member visit sample, firstTimedStep blueprint route.steps = .ok (some step) ∧
          memberForStep blueprint members step = .ok member ∧ activated.item.Valid ∧
          EntersVisit p blueprint draws activated.item step 0 (some member) startedAt visit
            sample ∧
          activated = {
            item := { item with
              lifecycle := .ACTIVE, currentStatusKey := step.statusKey, updatedAt := startedAt }
            visits := [visit], samples := [sample] }) := by
  simp only [activateItem, bind_eq_ok] at h
  obtain ⟨route, hroute, first, hfirst, h⟩ := h
  refine ⟨route, hroute, ?_⟩
  -- a route without timed steps ends at once
  cases first with
  | none =>
    simp only [activeItem, bind_eq_ok, validated_eq_ok, WorkItemState.validate_eq_ok,
      getIndex_eq_ok, pure_eq_ok] at h
    obtain ⟨terminal, hterminal, done, ⟨hvalid, rfl⟩, rfl⟩ := h
    refine .inl ⟨terminal, List.mem_of_getElem? hterminal, ?_, hfirst, hvalid, rfl⟩
    rw [List.getLast?_eq_getElem?, hterminal]
  | some step =>
    simp only [activeItem, timedVisit, statusSample, bind_eq_ok, exists_unit, validated_eq_ok,
      WorkItemState.validate_eq_ok, StatusVisitState.validate_eq_ok, visitRngId_eq_ok,
      StatusVisitSample.create_eq_ok, pure_eq_ok] at h
    obtain ⟨active, ⟨hvalid, rfl⟩, visit, ⟨id, ⟨-, rfl⟩, required, -, member, hmember, hvisit,
      rfl⟩, sample, ⟨-, hvalues, hsample⟩, rfl⟩ := h
    exact .inr ⟨step, member, _, sample, hfirst, hmember, hvalid,
      ⟨⟨required, rfl⟩, hvisit, hvalues, hsample⟩, rfl⟩

end JiraSimulator
