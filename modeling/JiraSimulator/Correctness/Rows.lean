import JiraSimulator.Domain.ScrumState

/-!
# What a validated row satisfies

The checks of the row types, as propositions about their fields.  An identifier is determined by the
coordinates of its row, so rows with one identifier agree on them.
-/

namespace JiraSimulator

open Library.Outcome

@[simp] theorem requireSemanticId_eq_ok {actual expected : Uuid} {label : String} {u : Unit} :
    requireSemanticId actual expected label = .ok u ↔ actual = expected := by
  simp [requireSemanticId]

@[simp] theorem requireSafeInteger_eq_ok {value : ℕ} {label : String} {u : Unit} :
    requireSafeInteger value label = .ok u ↔ value ≤ maxSafeInteger := by
  simp [requireSafeInteger]

@[simp] theorem requireText_eq_ok {value label : String} {u : Unit} :
    requireText value label = .ok u ↔ isCanonicalText value = true := by
  simp [requireText]

@[simp] theorem requireMicroseconds_eq_ok {value : ℤ} {label : String} {u : Unit} :
    requireMicroseconds value label = .ok u ↔ 0 ≤ value ∧ value ≤ maxSqliteInteger := by
  simp [requireMicroseconds]

@[simp] theorem requireFraction_eq_ok {value : ℚ} {label : String} {u : Unit} :
    requireFraction value label = .ok u ↔ 0 ≤ value ∧ value ≤ 1 := by
  simp [requireFraction]

@[simp] theorem memberRngId_eq_ok {team : Uuid} {index : ℕ} {id : Uuid} :
    memberRngId team index = .ok id ↔ index ≤ maxSafeInteger ∧ .member team index = id :=
  ordinalUuid_eq_ok

@[simp] theorem sprintRngId_eq_ok {team : Uuid} {ordinal : ℕ} {id : Uuid} :
    sprintRngId team ordinal = .ok id ↔ ordinal ≤ maxSafeInteger ∧ .sprint team ordinal = id :=
  ordinalUuid_eq_ok

@[simp] theorem itemRngId_eq_ok {team : Uuid} {kind : CreationKind} {sequence : ℕ} {id : Uuid} :
    itemRngId team kind sequence = .ok id ↔
      sequence ≤ maxSafeInteger ∧ .item team kind sequence = id :=
  ordinalUuid_eq_ok

@[simp] theorem visitRngId_eq_ok {item : Uuid} {ordinal : ℕ} {id : Uuid} :
    visitRngId item ordinal = .ok id ↔ ordinal ≤ maxSafeInteger ∧ .visit item ordinal = id :=
  ordinalUuid_eq_ok

/-! ### Members, overlays and consumption -/

theorem MemberIdentity.validate_eq_ok {row : MemberIdentity} :
    row.validate = .ok () ↔
      row.blueprintIndex ≤ maxSafeInteger ∧ row.id = .member row.teamId row.blueprintIndex := by
  simp only [MemberIdentity.validate, bind_eq_ok, exists_unit, requireSafeInteger_eq_ok,
    memberRngId_eq_ok, requireSemanticId_eq_ok]
  constructor
  · rintro ⟨hindex, id, ⟨-, rfl⟩, hid⟩
    exact ⟨hindex, hid⟩
  · rintro ⟨hindex, hid⟩
    exact ⟨hindex, _, ⟨hindex, rfl⟩, hid⟩

theorem MemberBusinessDateConsumption.validate_eq_ok {row : MemberBusinessDateConsumption} :
    row.validate = .ok () ↔ 0 ≤ row.consumedLaborMicroseconds ∧
      row.consumedLaborMicroseconds ≤ maxSqliteInteger :=
  requireMicroseconds_eq_ok

/-! ### Work items -/

structure WorkItemState.Valid (work : WorkItemState) : Prop where
  sequence : work.creationSequence ≤ maxSafeInteger
  id : work.id = .item work.teamId work.creationKind work.creationSequence
  storyPoints : work.storyPoints ∈ STORY_POINTS
  rank : work.relativeRank ≤ maxSafeInteger
  status : isCanonicalText work.currentStatusKey = true
  times : work.createdAt ≤ work.updatedAt

theorem WorkItemState.validate_eq_ok {work : WorkItemState} :
    work.validate = .ok () ↔ work.Valid := by
  simp only [WorkItemState.validate, bind_eq_ok, exists_unit, requireSafeInteger_eq_ok,
    itemRngId_eq_ok, requireSemanticId_eq_ok, require_eq_ok, requireText_eq_ok]
  constructor
  · rintro ⟨hsequence, id, ⟨-, rfl⟩, hid, hpoints, hrank, hstatus, htimes⟩
    exact ⟨hsequence, hid, hpoints, hrank, hstatus, htimes⟩
  · rintro ⟨hsequence, hid, hpoints, hrank, hstatus, htimes⟩
    exact ⟨hsequence, _, ⟨hsequence, rfl⟩, hid, hpoints, hrank, hstatus, htimes⟩

/-! ### Sprints -/

structure SprintState.Valid (sprint : SprintState) : Prop where
  ordinal : sprint.ordinal ≤ maxSafeInteger
  id : sprint.id = .sprint sprint.teamId sprint.ordinal
  interval : sprint.plannedStartAt < sprint.plannedEndAt
  presence : (sprint.observedStartAt.isSome, sprint.observedEndAt.isSome) =
    sprint.lifecycle.expectedPresence
  observed : orderedTimes sprint.observedStartAt sprint.observedEndAt = true
  times : sprint.createdAt ≤ sprint.updatedAt

theorem SprintState.validate_eq_ok {sprint : SprintState} :
    sprint.validate = .ok () ↔ sprint.Valid := by
  simp only [SprintState.validate, bind_eq_ok, exists_unit, requireSafeInteger_eq_ok,
    sprintRngId_eq_ok, requireSemanticId_eq_ok, require_eq_ok]
  constructor
  · rintro ⟨hordinal, id, ⟨-, rfl⟩, hid, hinterval, hpresence, hobserved, htimes⟩
    exact ⟨hordinal, hid, hinterval, hpresence, hobserved, htimes⟩
  · rintro ⟨hordinal, hid, hinterval, hpresence, hobserved, htimes⟩
    exact ⟨hordinal, _, ⟨hordinal, rfl⟩, hid, hinterval, hpresence, hobserved, htimes⟩

theorem SprintScopeEntry.validate_eq_ok {entry : SprintScopeEntry} :
    entry.validate = .ok () ↔ entry.id = .sprintScope entry.sprintId entry.workItemId ∧
      orderedTimes (some entry.addedAt) entry.removedAt = true := by
  simp only [SprintScopeEntry.validate, bind_unit_eq_ok, requireSemanticId_eq_ok, require_eq_ok]

/-! ### Status visits -/

structure StatusVisitState.Valid (visit : StatusVisitState) : Prop where
  ordinal : visit.ordinal ≤ maxSafeInteger
  id : visit.id = .visit visit.workItemId visit.ordinal
  status : isCanonicalText visit.statusKey = true
  activity : ∀ activity, visit.activityKey = some activity → isCanonicalText activity = true
  zeroTouch : visit.activityKey = none → visit.memberId = none ∧
    visit.requiredWorkMicroseconds = 0 ∧ visit.elapsedWorkMicroseconds = 0 ∧
    visit.remainingWorkMicroseconds = 0 ∧ visit.creditedLaborMicroseconds = 0
  openTimes : visit.lifecycle = .OPEN → visit.closedAt = none
  closedTimes : visit.lifecycle = .CLOSED → visit.closedAt ≠ none
  orderedTimes : orderedTimes (some visit.enteredAt) visit.closedAt = true
  required : 0 ≤ visit.requiredWorkMicroseconds ∧
    visit.requiredWorkMicroseconds ≤ maxSqliteInteger
  elapsed : 0 ≤ visit.elapsedWorkMicroseconds ∧ visit.elapsedWorkMicroseconds ≤ maxSqliteInteger
  remaining : 0 ≤ visit.remainingWorkMicroseconds ∧
    visit.remainingWorkMicroseconds ≤ maxSqliteInteger
  queue : 0 ≤ visit.queueMicroseconds ∧ visit.queueMicroseconds ≤ maxSqliteInteger
  pause : 0 ≤ visit.pauseMicroseconds ∧ visit.pauseMicroseconds ≤ maxSqliteInteger
  credited : 0 ≤ visit.creditedLaborMicroseconds ∧
    visit.creditedLaborMicroseconds ≤ maxSqliteInteger
  balance : visit.requiredWorkMicroseconds =
    visit.elapsedWorkMicroseconds + visit.remainingWorkMicroseconds
  closedWork : visit.lifecycle = .CLOSED → visit.remainingWorkMicroseconds = 0

theorem StatusVisitState.validateZeroTouch_eq_ok {visit : StatusVisitState} :
    visit.validateZeroTouch = .ok () ↔ (visit.activityKey = none → visit.memberId = none ∧
      visit.requiredWorkMicroseconds = 0 ∧ visit.elapsedWorkMicroseconds = 0 ∧
      visit.remainingWorkMicroseconds = 0 ∧ visit.creditedLaborMicroseconds = 0) := by
  unfold StatusVisitState.validateZeroTouch
  cases visit.activityKey <;> simp

theorem StatusVisitState.validate_eq_ok {visit : StatusVisitState} :
    visit.validate = .ok () ↔ visit.Valid := by
  simp only [StatusVisitState.validate, bind_eq_ok, exists_unit, requireSafeInteger_eq_ok,
    visitRngId_eq_ok, requireSemanticId_eq_ok, requireText_eq_ok, forM_eq_ok, Option.mem_toList,
    validateZeroTouch_eq_ok, validateTimes, validateMicroseconds, require_eq_ok,
    requireMicroseconds_eq_ok]
  constructor
  · rintro ⟨hordinal, id, ⟨-, rfl⟩, hid, hstatus, hactivity, hzero, ⟨hopen, hclosed, hordered⟩,
      h₁, h₂, h₃, h₄, h₅, h₆, hbalance, hwork⟩
    exact ⟨hordinal, hid, hstatus, hactivity, hzero, hopen, hclosed, hordered, h₁, h₂, h₃, h₄, h₅,
      h₆, hbalance, hwork⟩
  · rintro ⟨hordinal, hid, hstatus, hactivity, hzero, hopen, hclosed, hordered, h₁, h₂, h₃, h₄, h₅,
      h₆, hbalance, hwork⟩
    exact ⟨hordinal, _, ⟨hordinal, rfl⟩, hid, hstatus, hactivity, hzero,
      ⟨hopen, hclosed, hordered⟩, h₁, h₂, h₃, h₄, h₅, h₆, hbalance, hwork⟩

/-- Visits with one identifier are visits of one item. -/
theorem StatusVisitState.Valid.workItemId_eq {a b : StatusVisitState} (ha : a.Valid)
    (hb : b.Valid) (h : a.id = b.id) : a.workItemId = b.workItemId := by
  rw [ha.id, hb.id, Uuid.visit.injEq] at h
  exact h.1

end JiraSimulator
