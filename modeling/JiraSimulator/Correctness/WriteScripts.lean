import JiraSimulator.Correctness.WriteSteps

/-!
# The programs of the queue's entries

A transition lists the transitions of its issue and takes one of them (`dispatch_of_transition`);
the program of any other entry moves no issue (`readOnly_dispatch`).
-/

namespace JiraSimulator.WriteQueue

open Library.Redelivery Library.Redelivery.Script Library.Transition

variable {library : PythonLibrary}

/-! ### Transitions -/

/-- The entry is a transition of the issue. -/
def IsTransition (library : PythonLibrary) (issueKey : String) (e : Entry) : Prop :=
  e.operationType = "TRANSITION_ISSUE" ∧
    (e.payload.lookup "issue_key").map library.text = some issueKey

/-- The status that a transition is to reach. -/
def Entry.target (e : Entry) : Json :=
  (e.payload.lookup "target_status").getD (.string "")

instance (issueKey : String) (e : Entry) : Decidable (IsTransition library issueKey e) :=
  inferInstanceAs (Decidable (_ ∧ _))

theorem isTransition_of_fixed {a b : Entry} {issueKey : String} (h : a.fixed = b.fixed) :
    IsTransition library issueKey a ↔ IsTransition library issueKey b := by
  have hoperation : a.operationType = b.operationType := congrArg (fun e => e.operationType) h
  have hpayload : a.payload = b.payload := congrArg (fun e => e.payload) h
  rw [IsTransition, IsTransition, hoperation, hpayload]

theorem target_of_fixed {a b : Entry} (h : a.fixed = b.fixed) : a.target = b.target := by
  have hpayload : a.payload = b.payload := congrArg (fun e => e.payload) h
  rw [Entry.target, Entry.target, hpayload]

theorem IsTransition.key_eq {e : Entry} {key key' : String} (h : IsTransition library key e)
    (h' : IsTransition library key' e) : key = key' :=
  Option.some.inj (h.2.symm.trans h'.2)

/-! ### Programs -/

/-- The request moves no issue. -/
def keepsIssues : QueueRequest → Bool
  | .transitionIssue .. => false
  | _ => true

theorem readOnly_await {r : QueueRequest} (h : keepsIssues r = true) :
    (await r).ReadOnly keepsIssues :=
  (readOnly_request h).bind fun _ => readOnly_lift

theorem readOnly_attempt {r : QueueRequest} (h : keepsIssues r = true) :
    (attempt r).ReadOnly keepsIssues :=
  (readOnly_request h).bind fun _ => trivial

theorem readOnly_item (payload : JsonObject) (key : String) :
    (item payload key).ReadOnly keepsIssues := by
  unfold item
  cases payload.lookup key <;> trivial

theorem readOnly_isoTime (value : Json) : (isoTime library value).ReadOnly keepsIssues := by
  unfold isoTime
  cases library.fromIsoFormat value <;> trivial

theorem readOnly_dispatchSprint (payload : JsonObject) :
    (dispatchSprint library payload).ReadOnly keepsIssues := by
  unfold dispatchSprint
  refine (readOnly_item payload _).bind fun _ => (readOnly_item payload _).bind fun _ => ?_
  refine (readOnly_item payload _).bind fun _ => (readOnly_isoTime _).bind fun _ => ?_
  refine (readOnly_item payload _).bind fun _ => (readOnly_isoTime _).bind fun _ => ?_
  exact (readOnly_await rfl).bind fun _ => trivial

theorem readOnly_popStoryPoints (customFields : JsonObject) (spFieldId : Json) :
    (popStoryPoints library customFields spFieldId).ReadOnly keepsIssues := by
  unfold popStoryPoints
  split_ifs
  · cases spFieldId <;> trivial
  · trivial

theorem readOnly_estimable (issueType : Json) :
    (estimable library issueType).ReadOnly keepsIssues := by
  cases issueType <;> trivial

theorem readOnly_setEstimationAndFields (issueKey : Json) (customFields : JsonObject)
    (spFieldId boardId issueType : Json) :
    (setEstimationAndFields library issueKey customFields spFieldId boardId issueType).ReadOnly
      keepsIssues := by
  unfold setEstimationAndFields
  refine (readOnly_popStoryPoints customFields spFieldId).bind fun points => ?_
  refine (readOnly_estimable issueType).bind fun estimable => ?_
  have hfields : (if points.2.isEmpty then pure () else attempt (.updateIssue issueKey points.2) :
      QueueScript Unit).ReadOnly keepsIssues := by
    split_ifs
    · trivial
    · exact readOnly_attempt rfl
  dsimp only
  split
  all_goals
    split
    · split
      · exact (readOnly_attempt rfl).bind fun _ => hfields
      · exact hfields
    · exact hfields

theorem readOnly_dispatchIssue (payload : JsonObject) :
    (dispatchIssue library payload).ReadOnly keepsIssues := by
  unfold dispatchIssue
  dsimp only
  split_ifs
  · refine (readOnly_await rfl).bind fun result => ?_
    split_ifs
    · exact (readOnly_setEstimationAndFields ..).bind fun _ => trivial
    · trivial
  · trivial

/-- The program of an entry that is no transition of an issue moves no issue. -/
theorem readOnly_dispatch {entry : Entry} (h : ∀ key, ¬ IsTransition library key entry) :
    (dispatch library entry).ReadOnly keepsIssues := by
  unfold dispatch
  split
  · exact readOnly_dispatchSprint _
  · exact readOnly_dispatchIssue _
  · rename_i hoperation
    unfold resolveAndTransition item
    cases hkey : entry.payload.lookup "issue_key" with
    | none => trivial
    | some value => exact absurd ⟨hoperation, by rw [hkey]; rfl⟩ (h (library.text value))
  · split
    · split_ifs
      · exact (readOnly_await rfl).bind fun _ => trivial
      · trivial
    · trivial

/-- How a dispatch goes on after its issue was to be moved. -/
def afterMove (answer : Except QueueError Unit) : QueueScript Dispatched :=
  match answer with
  | .ok _ => .done (.ok { result := none, mappedSprint := none })
  | .error error => .done (.error error)

/-- The program of a transition lists the transitions of its issue, and takes one of them. -/
theorem dispatch_of_transition {entry : Entry} {key : String} (h : IsTransition library key entry) :
    ∃ next, dispatch library entry = .call (.getIssueTransitions key) next ∧ ∀ answer,
      (∃ error, next answer = .done (.error error)) ∨
        ∃ transitions t id, answer = .ok transitions ∧
          transitionTo transitions entry.target = some t ∧ t.id = some id ∧
          next answer = .call (.transitionIssue key id) afterMove := by
  obtain ⟨hoperation, hkey⟩ := h
  obtain ⟨value, hvalue, rfl⟩ := Option.map_eq_some_iff.mp hkey
  have hdispatch : dispatch library entry = (do
      resolveAndTransition library entry.payload
      return { result := none, mappedSprint := none }) := by
    simp only [dispatch, hoperation]
  rw [hdispatch]
  unfold resolveAndTransition item
  rw [hvalue]
  refine ⟨_, rfl, fun answer => ?_⟩
  rcases answer with error | transitions
  · exact .inl ⟨error, rfl⟩
  -- the run fails when no offered transition leads to the target
  cases hto : transitionTo transitions entry.target with
  | none =>
    rw [Entry.target] at hto
    left
    simp only [Script.bind, lift, hto]
    exact ⟨_, rfl⟩
  | some t =>
    rw [Entry.target] at hto
    -- or when the one that does has no id
    cases hid : t.id with
    | none =>
      left
      simp only [Script.bind, lift, hto, hid]
      exact ⟨_, rfl⟩
    | some id =>
      refine .inr ⟨transitions, t, id, rfl, hto, hid, ?_⟩
      simp only [Script.bind, lift, hto, hid]
      refine congrArg (Script.call _) (funext fun answer => ?_)
      rcases answer with error | _ <;> rfl

end JiraSimulator.WriteQueue
