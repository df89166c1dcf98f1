import JiraSimulator.Engine.WorkflowEngine

/-!
# What one tick does to an issue

An issue that is processed in a tick rests, is found done in the final step, or moves to a step of
the workflow.  `ItemOutcome` names the three cases.
-/

namespace JiraSimulator.Engine

open Library Library.Outcome

variable {library : StandardLibrary} {config : WorkflowConfig}

/-- The issue is the same one, and as far from its completion as before. -/
structure SameIssue (issue issue' : IssueSnapshot) : Prop where
  id : issue'.id = issue.id
  completedAt : issue'.completedAt = issue.completedAt

theorem SameIssue.refl (issue : IssueSnapshot) : SameIssue issue issue :=
  ⟨rfl, rfl⟩

theorem SameIssue.trans {a b c : IssueSnapshot} (hab : SameIssue a b) (hbc : SameIssue b c) :
    SameIssue a c :=
  ⟨hbc.id.trans hab.id, hbc.completedAt.trans hab.completedAt⟩

/-! ### The steps of a tick -/

theorem assignWorker_same {step : WorkflowStepSnapshot} {s s' : ItemState library}
    (h : assignWorker library step s = .ok s') : SameIssue s.issue s'.issue := by
  unfold assignWorker at h
  split_ifs at h
  · simp only [bind_eq_ok] at h
    obtain ⟨⟨worker, rng⟩, -, h⟩ := h
    cases worker with
    | none =>
      cases h
      exact .refl _
    | some worker =>
      simp only [bind_eq_ok, pure_eq_ok] at h
      obtain ⟨states, -, rfl⟩ := h
      exact ⟨rfl, rfl⟩
  · cases h
    exact .refl _

theorem advanceWork_same {tickHours : ℚ} {s s' : ItemState library}
    (h : advanceWork library tickHours s = .ok s') : SameIssue s.issue s'.issue := by
  unfold advanceWork at h
  cases hworker : s.issue.worker with
  | none =>
    rw [hworker] at h
    cases h
    exact .refl _
  | some memberId =>
    rw [hworker] at h
    simp only [bind_eq_ok] at h
    obtain ⟨current, -, h⟩ := h
    split_ifs at h
    · cases h
      exact ⟨rfl, rfl⟩
    · simp only [bind_eq_ok, pure_eq_ok] at h
      obtain ⟨states, -, rfl⟩ := h
      exact ⟨rfl, rfl⟩

theorem releaseWorker_issue {s s' : ItemState library} (h : releaseWorker library s = .ok s') :
    s'.issue = s.issue := by
  unfold releaseWorker at h
  cases hworker : s.issue.currentWorkerId with
  | none =>
    rw [hworker] at h
    cases h
    rfl
  | some memberId =>
    rw [hworker] at h
    simp only [bind_eq_ok, pure_eq_ok] at h
    obtain ⟨states, -, rfl⟩ := h
    rfl

/-- An issue that enters a status keeps its identity, and forgets its worker. -/
theorem enterStatus_eq_ok {issue issue' : IssueSnapshot} {step : WorkflowStepSnapshot}
    {touchTime : Option TouchTimeConfigSnapshot} {rng rng' : library.State}
    {action : JiraWriteAction}
    (h : enterStatus library issue step touchTime rng = .ok (issue', action, rng')) :
    SameIssue issue issue' ∧ issue'.workStarted = false ∧ issue'.status = step.jiraStatus ∧
      issue'.storyPoints = issue.storyPoints ∧ issue'.sprintId = issue.sprintId ∧
      action = transitionAction issue' step.jiraStatus := by
  simp only [enterStatus, bind_eq_ok, pure_eq_ok, Prod.mk.injEq] at h
  obtain ⟨⟨full, work, rng''⟩, -, rfl, rfl, -⟩ := h
  exact ⟨⟨rfl, rfl⟩, rfl, rfl, rfl, rfl, rfl⟩

/-! ### Outcomes -/

/-- What a tick does to an issue. -/
inductive ItemOutcome (config : WorkflowConfig) (issue : IssueSnapshot)
    (result : ItemTickResult library) : Prop where
  | rests (hsame : SameIssue issue result.issue) (hactions : result.jiraActions = [])
    (hcompleted : result.completed = false)
  | done (hid : result.issue.id = issue.id) (hactions : result.jiraActions = [])
    (hcompleted : result.completed = true)
  | moves (step : WorkflowStepSnapshot) (hsame : SameIssue issue result.issue)
    (hactions : result.jiraActions = [transitionAction result.issue step.jiraStatus])
    (hcompleted : result.completed = true → isFinalStep config.workflowSteps step = true)

theorem enterStep_outcome {step : WorkflowStepSnapshot} {completed : Bool} {s : ItemState library}
    {result : ItemTickResult library}
    (hfinal : completed = true → isFinalStep config.workflowSteps step = true)
    (h : enterStep library config step completed s = .ok result) :
    ItemOutcome config s.issue result := by
  simp only [enterStep, bind_eq_ok, pure_eq_ok] at h
  obtain ⟨⟨issue, action, rng⟩, henter, rfl⟩ := h
  obtain ⟨hsame, -, -, -, -, rfl⟩ := enterStatus_eq_ok henter
  exact .moves step hsame rfl hfinal

theorem executeTransition_outcome {step : WorkflowStepSnapshot} {direction : Direction}
    {s : ItemState library} {result : ItemTickResult library}
    (h : executeTransition library config step direction s = .ok result) :
    ItemOutcome config s.issue result := by
  unfold executeTransition at h
  cases direction with
  | forward =>
    dsimp only at h
    cases hnext : nextStep config.workflowSteps step.order with
    | none =>
      rw [hnext] at h
      cases h
      exact .done rfl rfl rfl
    | some next =>
      rw [hnext] at h
      dsimp only at h
      split_ifs at h with hfinal
      · cases h
        exact .done rfl rfl rfl
      · exact enterStep_outcome id h
  | left targetStepId =>
    dsimp only at h
    cases htarget : findStepById config.workflowSteps (some targetStepId) with
    | none =>
      rw [htarget] at h
      cases h
      exact .rests (.refl _) rfl rfl
    | some target =>
      rw [htarget] at h
      exact enterStep_outcome (fun hfalse => by cases hfalse) h

/-- The same issue stands for the one before it in an outcome. -/
theorem ItemOutcome.of_same {issue issue' : IssueSnapshot} {result : ItemTickResult library}
    (hsame : SameIssue issue issue') (h : ItemOutcome config issue' result) :
    ItemOutcome config issue result := by
  cases h with
  | rests hsame' hactions hcompleted => exact .rests (hsame.trans hsame') hactions hcompleted
  | done hid hactions hcompleted => exact .done (hid.trans hsame.id) hactions hcompleted
  | moves step hsame' hactions hcompleted =>
    exact .moves step (hsame.trans hsame') hactions hcompleted

theorem processItemTick_outcome {s : ItemState library} {result : ItemTickResult library}
    (h : processItemTick library config s = .ok result) : ItemOutcome config s.issue result := by
  unfold processItemTick at h
  cases hstep : findStepById config.workflowSteps s.issue.currentWorkflowStepId with
  | none =>
    rw [hstep] at h
    cases h
    exact .rests (.refl _) rfl rfl
  | some step =>
    rw [hstep] at h
    simp only [bind_eq_ok] at h
    obtain ⟨assigned, hassigned, advanced, hadvanced, h⟩ := h
    have hworked : SameIssue assigned.issue advanced.issue := advanceWork_same hadvanced
    have hsame : SameIssue s.issue (advanceFullTime library config.tickHours advanced).issue :=
      (assignWorker_same hassigned).trans ⟨hworked.id, hworked.completedAt⟩
    split_ifs at h with hready
    · simp only [bind_eq_ok] at h
      obtain ⟨released, hreleased, h⟩ := h
      have houtcome := executeTransition_outcome h
      rw [releaseWorker_issue hreleased] at houtcome
      exact houtcome.of_same hsame
    · cases h
      exact .rests hsame rfl rfl

end JiraSimulator.Engine
