import JiraSimulator.Integrations.JiraIntentAdapter

/-!
# Delivering an intent again

The worker may stop after any request of a delivery and deliver the intent again.  Every operation
makes at most one request that changes Jira, and looks first for what that request would do: a
project by its key, an issue and a sprint by their markers, a state or a status by its name.  The
issues of a sprint are a set.
* `redelivery_idempotent`: after any number of stopped deliveries, a delivery gives the mappings and
  leaves the state of a single one.
-/

namespace JiraSimulator

open Library.Redelivery Library.Redelivery.Script

/-! ### What is assumed of Jira -/

/-- The label is among the labels of the fields. -/
def HasLabel (fields : JsonObject) (label : String) : Prop :=
  ∃ labels, fields.lookup "labels" = some (.array labels) ∧ labels.any (Json.isText label) = true

/-- Lookups change nothing and see what was created, a transition leads to the status that it names,
and issues that are in a sprint can be added again without effect. -/
structure SeesCreated {σ : Type} (jira : JiraService σ) : Prop where
  lookups : Preserves jira JiraRequest.isLookup
  project : ∀ {s s' key name boardType project},
    run jira (JiraClient.createProject key name boardType) s = (.ok project, s') →
    run jira (JiraClient.getProject key) s' = (.ok (some project), s')
  issue : ∀ {s s' label projectKey issueType summary fields issue}, HasLabel fields label →
    run jira (JiraClient.searchIssues (labelQuery label) ["key", "labels"] 2) s = (.ok [], s) →
    run jira (JiraClient.createIssue projectKey issueType summary fields) s = (.ok issue, s') →
    run jira (JiraClient.searchIssues (labelQuery label) ["key", "labels"] 2) s' = (.ok [issue], s')
  sprint : ∀ {s s' boardId name startAt endAt before sprint},
    run jira (JiraClient.getBoardSprints boardId) s = (.ok before, s) →
    run jira (JiraClient.createSprint boardId name startAt endAt) s = (.ok sprint, s') →
    ∃ (listed : JiraSprint) (after : List JiraSprint),
      run jira (JiraClient.getBoardSprints boardId) s' = (.ok after, s') ∧
      after.Perm (listed :: before) ∧ listed.name = name ∧
      listed.toJiraResource = sprint.toJiraResource
  sprintState : ∀ {s s' sprintId state},
    run jira (JiraClient.setSprintState sprintId state) s = (.ok (), s') →
    run jira (JiraClient.getSprint sprintId) s' = (.ok (some state), s')
  sprintIssues : ∀ {s s' sprintId keys before},
    run jira (JiraClient.getSprintIssues sprintId 100) s = (.ok before, s) →
    run jira (JiraClient.addIssuesToSprint sprintId keys) s = (.ok (), s') →
    ∃ after : List String,
      run jira (JiraClient.getSprintIssues sprintId 100) s' = (.ok (after.map some), s') ∧
      ∀ again, again ≠ [] → (∀ key ∈ again, (key ∈ keys ∨ key ∈ before) ∧ key ∉ after.map some) →
        run jira (JiraClient.addIssuesToSprint sprintId again) s' = (.ok (), s')
  transition : ∀ {s s' issueKey transitions item transitionId status},
    run jira (JiraClient.getIssueTransitions issueKey) s = (.ok transitions, s) →
    item ∈ transitions → item.id = some transitionId →
    item.toName = .ok (some status) ∨ item.name = some status →
    run jira (JiraClient.transitionIssue issueKey transitionId) s = (.ok (), s') →
    run jira (JiraClient.getIssue issueKey) s' = (.ok (.ok (some status)), s')

variable {library : TextLibrary} {mappings : MappingReader} {intent : JiraIntent}
  {payload : JsonObject} {σ : Type} {jira : JiraService σ} {s : σ}

/-- Reading a resource makes no request. -/
theorem readOnly_resourceMapping {kind : String} {id : Uuid} (provider : JiraResource) :
    (do
      let mapping ← lift (resourceMapping intent kind id provider)
      return [mapping] : Delivery (List JiraResourceMapping)).ReadOnly JiraRequest.isLookup :=
  readOnly_lift.bind fun _ => trivial

/-! ### Projects and boards -/

/-- Creating a project with the name in a field of the payload. -/
def newProject (library : TextLibrary) (payload : JsonObject) (projectKey nameKey : String) :
    Delivery JiraResource := do
  let name ← lift (stringField payload nameKey)
  let boardType ← lift (stringField payload "board_type")
  JiraClient.createProject projectKey name (library.lower boardType)

theorem writeLast_newProject {projectKey nameKey : String} :
    (newProject library payload projectKey nameKey).WriteLast JiraRequest.isLookup :=
  readOnly_lift.bind_writeLast fun _ => readOnly_lift.bind_writeLast fun _ => writeLast_request

/-- A new project is seen by its key. -/
theorem getProject_newProject (hjira : SeesCreated jira) {projectKey nameKey : String} {s' : σ}
    {project : JiraResource}
    (h : run jira (newProject library payload projectKey nameKey) s = (.ok project, s')) :
    run jira (JiraClient.getProject projectKey) s' = (.ok (some project), s') := by
  obtain ⟨name, -, h⟩ := run_lift_bind_eq_ok.mp h
  obtain ⟨boardType, -, h⟩ := run_lift_bind_eq_ok.mp h
  exact hjira.project h

theorem oneWrite_createProject :
    (createProject library intent payload).OneWrite JiraRequest.isLookup := by
  refine readOnly_lift.bind_oneWrite fun projectKey => ?_
  exact OneWrite.bind (oneWrite_ensure (readOnly_request rfl) writeLast_newProject.oneWrite)
    readOnly_resourceMapping

theorem again_createProject (hjira : SeesCreated jira)
    (hsafe : Safe jira (createProject library intent payload) s) :
    Again jira (createProject library intent payload) s := by
  refine again_lift fun projectKey hkey => ?_
  have hsafe := hsafe.bind_right (run_lift.trans (by rw [hkey]))
  refine again_ensure_of_writeLast hjira.lookups (readOnly_request rfl) readOnly_resourceMapping
    writeLast_newProject hsafe fun project s' _ hcreate => ?_
  exact ⟨project, getProject_newProject hjira hcreate, rfl⟩

/-- Looking for the board: a project without its board is found as well. -/
def findBoard (projectKey : String) : Delivery (Option (Option JiraResource)) := do
  match ← JiraClient.getBoard projectKey with
  | some board => pure (some (some board))
  | none =>
    match ← JiraClient.getProject projectKey with
    | some _ => pure (some none)
    | none => pure none

/-- Creating the project, and reading its board. -/
def newBoard (library : TextLibrary) (payload : JsonObject) (projectKey : String) :
    Delivery (Option JiraResource) := do
  let _ ← newProject library payload projectKey "project_name"
  JiraClient.getBoard projectKey

def finishBoard (intent : JiraIntent) : Option JiraResource → Delivery (List JiraResourceMapping)
  | none => throw (.provider "Jira project exists without its expected board")
  | some board => do
    let mapping ← lift (resourceMapping intent "BOARD" intent.aggregateId board)
    return [mapping]

theorem createBoard_eq : createBoard library intent payload =
    lift (stringField payload "project_key") >>= fun projectKey =>
      ensure (findBoard projectKey) (newBoard library payload projectKey) >>=
        finishBoard intent := by
  unfold createBoard
  congr 1
  funext projectKey
  refine congrArg (Script.call _) (funext fun board => ?_)
  cases board with
  | some board => rfl
  | none =>
    refine congrArg (Script.call _) (funext fun project => ?_)
    cases project with
    | some project => rfl
    | none =>
      show _ = newBoard library payload projectKey >>= finishBoard intent
      simp only [newBoard, newProject, bind_assoc']
      rfl

theorem readOnly_findBoard {projectKey : String} :
    (findBoard projectKey).ReadOnly JiraRequest.isLookup := by
  refine (readOnly_request rfl).bind fun board => ?_
  cases board with
  | some board => trivial
  | none =>
    refine (readOnly_request rfl).bind fun project => ?_
    cases project <;> trivial

theorem readOnly_finishBoard (board : Option JiraResource) :
    (finishBoard intent board).ReadOnly JiraRequest.isLookup := by
  cases board with
  | none => trivial
  | some board => exact readOnly_resourceMapping board

theorem oneWrite_createBoard :
    (createBoard library intent payload).OneWrite JiraRequest.isLookup := by
  rw [createBoard_eq]
  refine readOnly_lift.bind_oneWrite fun projectKey => ?_
  refine OneWrite.bind (oneWrite_ensure readOnly_findBoard ?_) readOnly_finishBoard
  exact writeLast_newProject.oneWrite.bind fun _ => readOnly_request rfl

/-- What reading the board gives decides what looking for the board gives, once there is a project.
-/
theorem run_findBoard {projectKey : String} {project : JiraResource} {board : Option JiraResource}
    (hboard : run jira (JiraClient.getBoard projectKey) s = (.ok board, s))
    (hproject : run jira (JiraClient.getProject projectKey) s = (.ok (some project), s)) :
    run jira (findBoard projectKey) s = (.ok (some board), s) := by
  rw [findBoard, run_bind_of_ok hboard]
  cases board with
  | some board => rfl
  | none => exact run_bind_of_ok hproject

theorem again_createBoard (hjira : SeesCreated jira)
    (hsafe : Safe jira (createBoard library intent payload) s) :
    Again jira (createBoard library intent payload) s := by
  rw [createBoard_eq] at hsafe ⊢
  refine again_lift fun projectKey hkey => ?_
  have hsafe := hsafe.bind_right (run_lift.trans (by rw [hkey]))
  have hreads : (JiraClient.getBoard projectKey).ReadOnly JiraRequest.isLookup :=
    readOnly_request rfl
  refine again_ensure hjira.lookups readOnly_findBoard readOnly_finishBoard ?_ ?_
  · intro board s' _ hcreate
    obtain ⟨project, t, hproject, hboard⟩ := run_bind_eq_ok.mp hcreate
    obtain rfl : s' = t := by rw [← hreads.run_state hjira.lookups (s := t), hboard]
    exact ⟨board, run_findBoard hboard (getProject_newProject hjira hproject), rfl⟩
  · intro e s' hfound hcreate
    have hsafeNew : Safe jira (newBoard library payload projectKey) s :=
      hsafe.bind_left.bind_right hfound
    rcases run_bind_eq_error.mp hcreate with herror | ⟨project, t, hproject, hboard⟩
    · obtain rfl := hsafeNew.bind_left.state_of_error hjira.lookups writeLast_newProject herror
      exact run_bind_of_error ((run_ensure_of_none hfound).trans hcreate)
    · -- the project was created, and reading its board fails again
      obtain rfl : s' = t := by rw [← hreads.run_state hjira.lookups (s := t), hboard]
      have hfind : run jira (findBoard projectKey) s' = (.error e, s') := run_bind_of_error hboard
      exact run_bind_of_error (run_bind_of_error hfind)

/-! ### Issues and sprints -/

theorem onlyMatch_eq_none {α : Type} {found : List α} {error : String} :
    onlyMatch found error = .ok none ↔ found = [] := by
  unfold onlyMatch
  split_ifs with hlength
  · constructor
    · intro h
      cases h
    · rintro rfl
      exact absurd hlength (Nat.not_lt_zero 1)
  · simp [List.head?_eq_none_iff]

theorem hasLabel_markedFields {marker : String} {fields : JsonObject}
    (h : markedFields payload marker = .ok fields) : HasLabel fields marker := by
  simp only [markedFields, Library.Outcome.bind_eq_ok, Library.Outcome.pure_eq_ok] at h
  obtain ⟨before, -, labels, -, rfl⟩ := h
  refine ⟨if labels.any (Json.isText marker) then labels else labels ++ [.string marker], ?_, ?_⟩
  · have hothers : (before.filter fun field => field.1 ≠ "labels").lookup "labels" = none := by
      rw [List.lookup_eq_none_iff]
      intro field hfield
      have hne := of_decide_eq_true (List.mem_filter.mp hfield).2
      simpa using Ne.symm hne
    rw [List.lookup_append, hothers]
    rfl
  · split_ifs with hlabels
    · exact hlabels
    · simp [Json.isText]

theorem writeLast_createMarkedIssue {marker : String} :
    (createMarkedIssue payload marker).WriteLast JiraRequest.isLookup := by
  refine readOnly_lift.bind_writeLast fun fields => ?_
  refine readOnly_lift.bind_writeLast fun projectKey => ?_
  refine readOnly_lift.bind_writeLast fun issueType => ?_
  refine readOnly_lift.bind_writeLast fun summary => ?_
  exact writeLast_request

theorem oneWrite_createIssue :
    (createIssue library intent payload).OneWrite JiraRequest.isLookup := by
  refine readOnly_lift.bind_oneWrite fun issueId => ?_
  refine OneWrite.bind (oneWrite_ensure ?_ writeLast_createMarkedIssue.oneWrite)
    readOnly_resourceMapping
  exact (readOnly_request rfl).bind fun _ => readOnly_lift

theorem again_createIssue (hjira : SeesCreated jira)
    (hsafe : Safe jira (createIssue library intent payload) s) :
    Again jira (createIssue library intent payload) s := by
  refine again_lift fun issueId hid => ?_
  have hsafe := hsafe.bind_right (run_lift.trans (by rw [hid]))
  refine again_ensure_of_writeLast hjira.lookups ((readOnly_request rfl).bind fun _ => readOnly_lift)
    readOnly_resourceMapping writeLast_createMarkedIssue hsafe fun issue s' hfound hcreate => ?_
  obtain ⟨found, t, hsearch, hmatch⟩ := run_bind_eq_ok.mp hfound
  obtain ⟨honly, rfl⟩ := Prod.mk.inj hmatch
  obtain rfl := onlyMatch_eq_none.mp honly
  obtain ⟨fields, hfields, hcreate⟩ := run_lift_bind_eq_ok.mp hcreate
  obtain ⟨projectKey, -, hcreate⟩ := run_lift_bind_eq_ok.mp hcreate
  obtain ⟨issueType, -, hcreate⟩ := run_lift_bind_eq_ok.mp hcreate
  obtain ⟨summary, -, hcreate⟩ := run_lift_bind_eq_ok.mp hcreate
  have hseen := hjira.issue (hasLabel_markedFields hfields) hsearch hcreate
  exact ⟨issue, run_bind_of_ok hseen, rfl⟩

/-- The name of a new sprint contains its marker. -/
theorem contains_marker (name marker : String) :
    contains (name ++ " [" ++ marker ++ "]") marker = true := by
  simp only [contains, String.toList_append, decide_eq_true_eq]
  exact ⟨(name.toList ++ " [".toList), "]".toList, by simp⟩

/-- Creating a sprint with its marker in the name. -/
def newSprint (library : TextLibrary) (payload : JsonObject) (boardId : ℤ) (marker : String) :
    Delivery JiraSprint := do
  let name ← lift (stringField payload "name")
  let startAt ← lift (datetimeField library payload "start_at")
  let endAt ← lift (datetimeField library payload "end_at")
  JiraClient.createSprint boardId (name ++ " [" ++ marker ++ "]") startAt endAt

theorem writeLast_newSprint {boardId : ℤ} {marker : String} :
    (newSprint library payload boardId marker).WriteLast JiraRequest.isLookup :=
  readOnly_lift.bind_writeLast fun _ => readOnly_lift.bind_writeLast fun _ =>
    readOnly_lift.bind_writeLast fun _ => writeLast_request

theorem oneWrite_createSprint :
    (createSprint library mappings intent payload).OneWrite JiraRequest.isLookup := by
  refine readOnly_lift.bind_oneWrite fun sprintId => readOnly_lift.bind_oneWrite fun boardUuid => ?_
  refine readOnly_lift.bind_oneWrite fun board => readOnly_lift.bind_oneWrite fun boardId => ?_
  refine OneWrite.bind (oneWrite_ensure ?_ writeLast_newSprint.oneWrite) fun sprint =>
    readOnly_resourceMapping sprint.toJiraResource
  exact (readOnly_request rfl).bind fun _ => readOnly_lift

theorem again_createSprint (hjira : SeesCreated jira)
    (hsafe : Safe jira (createSprint library mappings intent payload) s) :
    Again jira (createSprint library mappings intent payload) s := by
  refine again_lift fun sprintId hid => again_lift fun boardUuid hboardUuid => ?_
  refine again_lift fun board hboard => again_lift fun boardId hboardId => ?_
  have hsafe := hsafe.bind_right (run_lift.trans (by rw [hid]))
  have hsafe := hsafe.bind_right (run_lift.trans (by rw [hboardUuid]))
  have hsafe := hsafe.bind_right (run_lift.trans (by rw [hboard]))
  have hsafe := hsafe.bind_right (run_lift.trans (by rw [hboardId]))
  refine again_ensure_of_writeLast hjira.lookups ((readOnly_request rfl).bind fun _ => readOnly_lift)
    (fun sprint => readOnly_resourceMapping sprint.toJiraResource) writeLast_newSprint hsafe
    fun sprint s' hfound hcreate => ?_
  obtain ⟨before, t, hbefore, hmatch⟩ := run_bind_eq_ok.mp hfound
  obtain ⟨honly, rfl⟩ := Prod.mk.inj hmatch
  have hnone := onlyMatch_eq_none.mp honly
  obtain ⟨name, -, hcreate⟩ := run_lift_bind_eq_ok.mp hcreate
  obtain ⟨startAt, -, hcreate⟩ := run_lift_bind_eq_ok.mp hcreate
  obtain ⟨endAt, -, hcreate⟩ := run_lift_bind_eq_ok.mp hcreate
  obtain ⟨listed, after, hafter, hperm, hname, hresource⟩ := hjira.sprint hbefore hcreate
  -- the new sprint is the only one with the marker
  have hlisted : (contains listed.name (marker library sprintId) ||
      contains listed.goal (marker library sprintId)) = true := by
    rw [hname, contains_marker, Bool.true_or]
  have honlyAfter : after.filter (fun sprint => contains sprint.name (marker library sprintId) ||
      contains sprint.goal (marker library sprintId)) = [listed] := by
    rw [← List.perm_singleton]
    refine (hperm.filter _).trans ?_
    rw [List.filter_cons, if_pos hlisted]
    exact (List.perm_cons listed).mpr (by rw [hnone])
  refine ⟨listed, ?_, by rw [hresource]⟩
  refine (run_bind_of_ok hafter).trans ?_
  show (onlyMatch (after.filter _) _, s') = _
  rw [honlyAfter]
  rfl

/-! ### Scopes, states and statuses -/

/-- A delivery that comes down to one request changes nothing where that request has succeeded. -/
theorem again_request {β : Type} {p : Delivery (List JiraResourceMapping)} (request : Delivery β)
    (hjira : SeesCreated jira) (hwrite : request.WriteLast JiraRequest.isLookup)
    (hrun : run jira p s = run jira (do
      let _ ← request
      return []) s)
    (hseen : ∀ b s', run jira request s = (.ok b, s') → run jira p s' = (.ok [], s'))
    (hsafe : Safe jira p s) : Again jira p s := by
  cases hrequest : run jira request s with
  | mk result s' =>
    cases result with
    | error e =>
      rw [run_bind_of_error hrequest] at hrun
      have hfails : Safe jira request s := by
        refine hsafe.imp_left fun ⟨_, _, hok⟩ => ?_
        rw [hrun] at hok
        cases hok
      have hs : s' = s := hfails.state_of_error hjira.lookups hwrite hrequest
      refine again_of_state_eq ?_
      rw [hrun]
      exact hs
    | ok b =>
      rw [run_bind_of_ok hrequest] at hrun
      rw [Again, hrun]
      exact hseen b s' hrequest

theorem oneWrite_scopeSprint :
    (scopeSprint library mappings intent payload).OneWrite JiraRequest.isLookup := by
  refine readOnly_lift.bind_oneWrite fun sprintUuid => readOnly_lift.bind_oneWrite fun sprint => ?_
  cases payload.lookup "issue_ids" with
  | none => trivial
  | some value =>
    refine readOnly_lift.bind_oneWrite fun issueIds => readOnly_lift.bind_oneWrite fun issues => ?_
    refine readOnly_lift.bind_oneWrite fun sprintId => ?_
    refine ReadOnly.bind_oneWrite (readOnly_request rfl) fun existing => ?_
    refine readOnly_lift.bind_oneWrite fun existingKeys => ?_
    cases missingKeys issues existingKeys with
    | nil => trivial
    | cons key keys => exact writeLast_request_pure.oneWrite

theorem issueKeys_map_some (keys : List String) : issueKeys (keys.map some) = .ok keys := by
  have hkeys : (keys.map some).mapM id = some keys := by
    induction keys with
    | nil => rfl
    | cons key keys ih => simp [ih]
  rw [issueKeys, hkeys]

theorem mem_missingKeys {issues : List JiraResourceMapping} {existing : List String}
    {key : Option String} : key ∈ missingKeys issues existing ↔
      key ∈ issues.map (·.jiraKey) ∧ key ∉ existing.map some := by
  rw [missingKeys, List.mem_filter, decide_eq_true_eq]

theorem map_some_of_issueKeys {existing : List (Option String)} {keys : List String}
    (h : issueKeys existing = .ok keys) : existing = keys.map some := by
  unfold issueKeys at h
  cases hkeys : existing.mapM id with
  | none =>
    rw [hkeys] at h
    cases h
  | some keys' =>
    rw [hkeys] at h
    obtain rfl := Except.ok.inj h
    clear h
    induction existing generalizing keys' with
    | nil =>
      obtain rfl : keys' = [] := by simpa using hkeys.symm
      rfl
    | cons entry existing ih =>
      cases entry with
      | none => simp at hkeys
      | some key =>
        cases hrest : existing.mapM id with
        | none => simp [hrest] at hkeys
        | some rest =>
          obtain rfl : keys' = key :: rest := by simpa [hrest, eq_comm] using hkeys
          rw [ih rest hrest, List.map_cons]

/-- The issues that are not in the sprint yet are added to it. -/
def addMissing (sprintId : ℤ) (issues : List JiraResourceMapping) :
    Delivery (List JiraResourceMapping) := do
  let existing ← JiraClient.getSprintIssues sprintId 100
  let existingKeys ← lift (issueKeys existing)
  match missingKeys issues existingKeys with
  | [] => return []
  | key :: keys =>
    let _ ← JiraClient.addIssuesToSprint sprintId (key :: keys)
    return []

theorem run_addMissing_of_nil {sprintId : ℤ} {issues : List JiraResourceMapping}
    {keys : List String}
    (h : run jira (JiraClient.getSprintIssues sprintId 100) s = (.ok (keys.map some), s))
    (hmissing : missingKeys issues keys = []) :
    run jira (addMissing sprintId issues) s = (.ok [], s) := by
  refine (run_bind_of_ok h).trans ?_
  rw [issueKeys_map_some]
  show run jira (match missingKeys issues keys with | [] => _ | key :: keys => _) s = _
  rw [hmissing]
  rfl

theorem run_addMissing_of_cons {sprintId : ℤ} {issues : List JiraResourceMapping}
    {keys : List String} {key : Option String} {rest : List (Option String)}
    (h : run jira (JiraClient.getSprintIssues sprintId 100) s = (.ok (keys.map some), s))
    (hmissing : missingKeys issues keys = key :: rest) :
    run jira (addMissing sprintId issues) s = run jira (do
      let _ ← JiraClient.addIssuesToSprint sprintId (key :: rest)
      return []) s := by
  refine (run_bind_of_ok h).trans ?_
  rw [issueKeys_map_some]
  show run jira (match missingKeys issues keys with | [] => _ | key :: keys => _) s = _
  rw [hmissing]

theorem again_addMissing (hjira : SeesCreated jira) {sprintId : ℤ}
    {issues : List JiraResourceMapping} (hsafe : Safe jira (addMissing sprintId issues) s) :
    Again jira (addMissing sprintId issues) s := by
  have hreads : (JiraClient.getSprintIssues sprintId 100).ReadOnly JiraRequest.isLookup :=
    readOnly_request rfl
  have hstate := hreads.run_state hjira.lookups (s := s)
  cases hbefore : run jira (JiraClient.getSprintIssues sprintId 100) s with
  | mk result t =>
    obtain rfl : t = s := by rw [← hstate, hbefore]
    cases result with
    | error e =>
      refine again_of_state_eq ?_
      rw [addMissing, run_bind_of_error hbefore]
    | ok before =>
      cases hkeys : issueKeys before with
      | error e =>
        refine again_of_state_eq ?_
        rw [addMissing, run_bind_of_ok hbefore, hkeys]
        rfl
      | ok keys =>
        obtain rfl := map_some_of_issueKeys hkeys
        cases hmissing : missingKeys issues keys with
        | nil =>
          refine again_of_state_eq ?_
          rw [run_addMissing_of_nil hbefore hmissing]
        | cons key rest =>
          refine again_request _ hjira writeLast_request
            (run_addMissing_of_cons hbefore hmissing) (fun _ s' hadd => ?_) hsafe
          obtain ⟨after, hafter, hagain⟩ := hjira.sprintIssues hbefore hadd
          cases hmissing' : missingKeys issues after with
          | nil => exact run_addMissing_of_nil hafter hmissing'
          | cons key' rest' =>
            -- the listing does not show all issues of the sprint
            rw [run_addMissing_of_cons hafter hmissing']
            refine run_bind_of_ok (hagain (key' :: rest') (by simp) fun k hk => ?_)
            rw [← hmissing', mem_missingKeys] at hk
            refine ⟨?_, hk.2⟩
            by_cases hbeforeKey : k ∈ keys.map some
            · exact .inr hbeforeKey
            · rw [← hmissing, mem_missingKeys]
              exact .inl ⟨hk.1, hbeforeKey⟩

theorem again_scopeSprint (hjira : SeesCreated jira)
    (hsafe : Safe jira (scopeSprint library mappings intent payload) s) :
    Again jira (scopeSprint library mappings intent payload) s := by
  refine again_lift fun sprintUuid hsprintUuid => again_lift fun sprint hsprint => ?_
  have hsafe := hsafe.bind_right (run_lift.trans (by rw [hsprintUuid]))
  have hsafe := hsafe.bind_right (run_lift.trans (by rw [hsprint]))
  cases hids : payload.lookup "issue_ids" with
  | none => rfl
  | some value =>
    rw [hids] at hsafe
    refine again_lift fun issueIds hissueIds => again_lift fun issues hissues => ?_
    refine again_lift fun sprintId hsprintId => ?_
    have hsafe := hsafe.bind_right (run_lift.trans (by rw [hissueIds]))
    have hsafe := hsafe.bind_right (run_lift.trans (by rw [hissues]))
    have hsafe := hsafe.bind_right (run_lift.trans (by rw [hsprintId]))
    exact again_addMissing hjira hsafe

theorem oneWrite_moveSprint {target : String} :
    (moveSprint library target mappings intent payload).OneWrite JiraRequest.isLookup := by
  refine readOnly_lift.bind_oneWrite fun sprintUuid => readOnly_lift.bind_oneWrite fun sprint => ?_
  refine readOnly_lift.bind_oneWrite fun sprintId => ?_
  refine ReadOnly.bind_oneWrite (readOnly_request rfl) fun state => ?_
  split_ifs
  · trivial
  · exact writeLast_request_pure.oneWrite

theorem again_moveSprint (hjira : SeesCreated jira) {target : String}
    (hsafe : Safe jira (moveSprint library target mappings intent payload) s) :
    Again jira (moveSprint library target mappings intent payload) s := by
  refine again_lift fun sprintUuid hsprintUuid => again_lift fun sprint hsprint => ?_
  refine again_lift fun sprintId hsprintId => ?_
  have hsafe := hsafe.bind_right (run_lift.trans (by rw [hsprintUuid]))
  have hsafe := hsafe.bind_right (run_lift.trans (by rw [hsprint]))
  have hsafe := hsafe.bind_right (run_lift.trans (by rw [hsprintId]))
  have hreads : (JiraClient.getSprint sprintId).ReadOnly JiraRequest.isLookup :=
    readOnly_request rfl
  have hstate := hreads.run_state hjira.lookups (s := s)
  cases hfind : run jira (JiraClient.getSprint sprintId) s with
  | mk result t =>
    obtain rfl : t = s := by rw [← hstate, hfind]
    cases result with
    | error e =>
      refine again_of_state_eq ?_
      rw [run_bind_of_error hfind]
    | ok state =>
      by_cases hstate : state = some target
      · refine again_of_state_eq ?_
        rw [run_bind_of_ok hfind, if_pos hstate]
        rfl
      · refine again_request (JiraClient.setSprintState sprintId target) hjira writeLast_request
          ?_ (fun _ s' hset => ?_) hsafe
        · rw [run_bind_of_ok hfind, if_neg hstate]
        · rw [run_bind_of_ok (hjira.sprintState hset), if_pos rfl]
          rfl

/-- The matched transition leads to the status or has its name. -/
theorem matchTransition_spec {target : String} {items : List JiraTransition}
    {item : JiraTransition} (h : matchTransition target items = .ok item) :
    item ∈ items ∧ (item.toName = .ok (some target) ∨ item.name = some target) := by
  induction items with
  | nil => cases h
  | cons first rest ih =>
    rw [matchTransition] at h
    cases hname : first.toName with
    | error e =>
      rw [hname] at h
      cases h
    | ok toName =>
      simp only [hname] at h
      by_cases hmatch : toName = some target ∨ first.name = some target
      · rw [if_pos hmatch] at h
        obtain rfl := Except.ok.inj h
        refine ⟨List.mem_cons_self, hmatch.imp_left fun hto => ?_⟩
        rw [hname, hto]
      · rw [if_neg hmatch] at h
        obtain ⟨hmem, hitem⟩ := ih h
        exact ⟨List.mem_cons_of_mem _ hmem, hitem⟩

theorem oneWrite_transitionIssue :
    (transitionIssue library mappings intent payload).OneWrite JiraRequest.isLookup := by
  refine readOnly_lift.bind_oneWrite fun issueUuid => readOnly_lift.bind_oneWrite fun mapping => ?_
  cases mapping.jiraKey with
  | none => trivial
  | some issueKey =>
    refine readOnly_lift.bind_oneWrite fun target => ?_
    refine ReadOnly.bind_oneWrite (readOnly_request rfl) fun status => ?_
    refine readOnly_lift.bind_oneWrite fun current => ?_
    split_ifs
    · trivial
    · refine ReadOnly.bind_oneWrite (readOnly_request rfl) fun transitions => ?_
      refine readOnly_lift.bind_oneWrite fun item => ?_
      cases item.id with
      | none => trivial
      | some transitionId => exact writeLast_request_pure.oneWrite

/-- The request for the matched transition. -/
def requestTransition (issueKey target : String) : Delivery (List JiraResourceMapping) := do
  let transitions ← JiraClient.getIssueTransitions issueKey
  let item ← lift (matchTransition target transitions)
  match item.id with
  | none => throw (.python .keyError)
  | some transitionId =>
    let _ ← JiraClient.transitionIssue issueKey transitionId
    return []

/-- The issue is moved unless it has the status already. -/
def moveIssue (issueKey target : String) : Delivery (List JiraResourceMapping) := do
  let status ← JiraClient.getIssue issueKey
  let current ← lift (Except.mapError AdapterError.python status)
  if current = some target then
    return []
  else
    requestTransition issueKey target

theorem run_moveIssue {issueKey target : String} {current : Option String}
    (h : run jira (JiraClient.getIssue issueKey) s = (.ok (.ok current), s)) :
    run jira (moveIssue issueKey target) s =
      if current = some target then (.ok [], s)
      else run jira (requestTransition issueKey target) s := by
  refine (run_bind_of_ok h).trans ?_
  show run jira (if current = some target then _ else _) s = _
  split_ifs <;> rfl

theorem again_moveIssue (hjira : SeesCreated jira) {issueKey target : String}
    (hsafe : Safe jira (moveIssue issueKey target) s) :
    Again jira (moveIssue issueKey target) s := by
  have hreads : (JiraClient.getIssue issueKey).ReadOnly JiraRequest.isLookup :=
    readOnly_request rfl
  -- reads leave the state, so a call that fails in one is repeated as it was
  have hstate := hreads.run_state hjira.lookups (s := s)
  cases hissue : run jira (JiraClient.getIssue issueKey) s with
  | mk result t =>
    obtain rfl : t = s := by rw [← hstate, hissue]
    cases result with
    | error e =>
      refine again_of_state_eq ?_
      rw [moveIssue, run_bind_of_error hissue]
    | ok status =>
      cases status with
      | error e =>
        refine again_of_state_eq ?_
        rw [moveIssue, run_bind_of_ok hissue]
        rfl
      | ok current =>
        have hmove : run jira (moveIssue issueKey target) t =
            if current = some target then (.ok [], t)
            else run jira (requestTransition issueKey target) t := run_moveIssue hissue
        -- an issue that stands at the target is left there
        by_cases hcurrent : current = some target
        · rw [if_pos hcurrent] at hmove
          exact again_of_state_eq (by rw [hmove])
        · rw [if_neg hcurrent] at hmove
          have hreads : (JiraClient.getIssueTransitions issueKey).ReadOnly JiraRequest.isLookup :=
            readOnly_request rfl
          have hstate := hreads.run_state hjira.lookups (s := t)
          cases hlisted : run jira (JiraClient.getIssueTransitions issueKey) t with
          | mk result u =>
            obtain rfl : u = t := by rw [← hstate, hlisted]
            cases result with
            | error e =>
              refine again_of_state_eq ?_
              rw [hmove, requestTransition, run_bind_of_error hlisted]
            | ok transitions =>
              have hmatched := hmove.trans (run_bind_of_ok hlisted)
              cases hitem : matchTransition target transitions with
              | error e =>
                rw [hitem] at hmatched
                exact again_of_state_eq (by rw [hmatched]; rfl)
              | ok item =>
                rw [hitem] at hmatched
                cases hid : item.id with
                | none =>
                  refine again_of_state_eq ?_
                  rw [hmatched]
                  show (run jira (match item.id with | none => _ | some transitionId => _) u).2 = u
                  rw [hid]
                  rfl
                | some transitionId =>
                  -- after the transition the repeated call finds the issue at the target
                  obtain ⟨hmem, hleads⟩ := matchTransition_spec hitem
                  refine again_request (JiraClient.transitionIssue issueKey transitionId) hjira
                    writeLast_request (hmatched.trans ?_) (fun _ s' hdone => ?_) hsafe
                  · show run jira (match item.id with | none => _ | some transitionId => _) u = _
                    rw [hid]
                  · rw [run_moveIssue (hjira.transition hlisted hmem hid hleads hdone), if_pos rfl]

theorem again_transitionIssue (hjira : SeesCreated jira)
    (hsafe : Safe jira (transitionIssue library mappings intent payload) s) :
    Again jira (transitionIssue library mappings intent payload) s := by
  refine again_lift fun issueUuid hissueUuid => again_lift fun mapping hmapping => ?_
  have hsafe := hsafe.bind_right (run_lift.trans (by rw [hissueUuid]))
  have hsafe := hsafe.bind_right (run_lift.trans (by rw [hmapping]))
  cases hkey : mapping.jiraKey with
  | none => rfl
  | some issueKey =>
    rw [hkey] at hsafe
    refine again_lift fun target htarget => ?_
    have hsafe := hsafe.bind_right (run_lift.trans (by rw [htarget]))
    exact again_moveIssue hjira hsafe

/-! ### Deliveries -/

theorem oneWrite_handlers : ∀ handler ∈ handlers library mappings,
    (handler.2 intent payload).OneWrite JiraRequest.isLookup := by
  simp only [handlers, List.forall_mem_cons]
  exact ⟨oneWrite_createProject, oneWrite_createBoard, oneWrite_createIssue, oneWrite_createIssue,
    oneWrite_createSprint, oneWrite_scopeSprint, oneWrite_moveSprint, oneWrite_moveSprint,
    oneWrite_transitionIssue, fun _ h => absurd h List.not_mem_nil⟩

theorem again_handlers (hjira : SeesCreated jira) : ∀ handler ∈ handlers library mappings,
    Safe jira (handler.2 intent payload) s → Again jira (handler.2 intent payload) s := by
  simp only [handlers, List.forall_mem_cons]
  exact ⟨again_createProject hjira, again_createBoard hjira, again_createIssue hjira,
    again_createIssue hjira, again_createSprint hjira, again_scopeSprint hjira,
    again_moveSprint hjira, again_moveSprint hjira, again_transitionIssue hjira,
    fun _ h => absurd h List.not_mem_nil⟩

theorem mem_of_lookup {β : Type} {key : String} {table : List (String × β)} {value : β}
    (h : table.lookup key = some value) : ∃ entry ∈ table, entry.2 = value := by
  rw [List.lookup_eq_some_iff] at h
  obtain ⟨before, after, rfl, -⟩ := h
  exact ⟨(key, value), List.mem_append_right _ List.mem_cons_self, rfl⟩

theorem oneWrite_deliverMappings :
    (deliverMappings library mappings intent).OneWrite JiraRequest.isLookup := by
  refine readOnly_lift.bind_oneWrite fun payload => ?_
  cases hlookup : (handlers library mappings).lookup intent.operationType with
  | none => trivial
  | some handler =>
    obtain ⟨entry, hmem, rfl⟩ := mem_of_lookup hlookup
    exact oneWrite_handlers entry hmem

theorem again_deliverMappings (hjira : SeesCreated jira)
    (hsafe : Safe jira (deliverMappings library mappings intent) s) :
    Again jira (deliverMappings library mappings intent) s := by
  refine again_lift fun payload hpayload => ?_
  have hsafe := hsafe.bind_right (run_lift.trans (by rw [hpayload]))
  cases hlookup : (handlers library mappings).lookup intent.operationType with
  | none => rfl
  | some handler =>
    rw [hlookup] at hsafe
    obtain ⟨entry, hmem, rfl⟩ := mem_of_lookup hlookup
    exact again_handlers hjira entry hmem hsafe

/-- Deliveries of an intent may stop after any of their requests.  When a single delivery succeeds,
or requests that fail leave Jira as it was, the delivery after them gives the outcome of the single
one and leaves Jira in the same state. -/
theorem redelivery_idempotent (hjira : SeesCreated jira) (library : TextLibrary)
    (mappings : MappingReader) (intent : JiraIntent) (now : ℤ)
    (hsafe : Safe jira (deliverMappings library mappings intent) s) (stops : List ℕ) :
    deliver library jira mappings intent now
        (crashes jira (deliverMappings library mappings intent) stops s) =
      deliver library jira mappings intent now s := by
  have hrun := run_crashes hjira.lookups oneWrite_deliverMappings
    (again_deliverMappings hjira hsafe) stops
  simp only [deliver, hrun]

/-- The labels among the fields of an issue. -/
def issueLabels (fields : JsonObject) : List Json :=
  match fields.lookup "labels" with
  | some (.array labels) => labels
  | _ => []

/-- Does an issue with these labels match the query? -/
def matchesQuery (jql : String) (labels : List Json) : Bool :=
  labels.any fun
    | .string label => labelQuery label = jql
    | _ => false

/-- The issue that is created after `count` others. -/
def numberedIssue (projectKey : String) (count : ℕ) : JiraResource where
  id := some (toString (10001 + count))
  key := some (projectKey ++ "-" ++ toString (count + 1))

/-- A Jira that keeps issues with their labels. -/
def issueTracker : JiraService (List (JiraResource × List Json))
  | .searchIssues jql _ maxResults, s =>
    (.ok (((s.filter fun issue => matchesQuery jql issue.2).map (·.1)).take maxResults), s)
  | .createIssue projectKey _ _ fields, s =>
    (.ok (numberedIssue projectKey s.length),
      s ++ [(numberedIssue projectKey s.length, issueLabels fields)])
  | _, s => (.error (.api "Not found"), s)

theorem matchesQuery_of_hasLabel {fields : JsonObject} {label : String}
    (h : HasLabel fields label) : matchesQuery (labelQuery label) (issueLabels fields) = true := by
  obtain ⟨labels, hlabels, hany⟩ := h
  obtain ⟨value, hmem, htext⟩ := List.any_eq_true.mp hany
  rw [issueLabels, hlabels]
  refine List.any_eq_true.mpr ⟨value, hmem, ?_⟩
  cases value with
  | string text =>
    obtain rfl : text = label := by simpa [Json.isText] using htext
    exact decide_eq_true rfl
  | _ => cases htext

theorem issueTracker_seesCreated : SeesCreated issueTracker where
  lookups := by
    intro request s hlookup
    cases request <;> first | rfl | cases hlookup
  project h := by cases h
  issue := by
    intro s s' label projectKey issueType summary fields issue hlabel hsearch hcreate
    have hnone : ((s.filter fun issue => matchesQuery (labelQuery label) issue.2).map (·.1)).take 2 =
        [] := Except.ok.inj (Prod.mk.inj hsearch).1
    rw [List.take_eq_nil_iff, List.map_eq_nil_iff] at hnone
    obtain ⟨hissue, rfl⟩ := Prod.mk.inj hcreate
    obtain rfl := Except.ok.inj hissue
    have hfilter : (s ++ [(numberedIssue projectKey s.length, issueLabels fields)]).filter
        (fun issue => matchesQuery (labelQuery label) issue.2) =
          [(numberedIssue projectKey s.length, issueLabels fields)] := by
      rw [List.filter_append, hnone.resolve_left (by decide), List.nil_append,
        List.filter_cons, if_pos (matchesQuery_of_hasLabel hlabel), List.filter_nil]
    have hfound := congrArg (fun found => (found.map Prod.fst).take 2) hfilter
    exact Prod.ext (congrArg Except.ok hfound) rfl
  sprint h := by cases h
  sprintState h := by cases h
  sprintIssues h := by cases h
  transition h := by cases h

theorem issueTracker_failsCleanly : FailsCleanly issueTracker := by
  intro request s e s' h
  cases request <;> cases h <;> rfl

/-- A new story. -/
def storyIntent : JiraIntent where
  id := .jiraProvisioning (.team ⟨"one"⟩) (.run (.team ⟨"one"⟩) 0) .project
  teamId := .team ⟨"one"⟩
  aggregateId := .team ⟨"story"⟩
  operationType := "CREATE_ISSUE"
  document := some (.object [("project_key", .string "ONE"), ("issue_type", .string "Story"),
    ("summary", .string "First story")])

/-- A library in which every identifier has one text. -/
def oneText : TextLibrary where
  uuidText _ := "00000000-0000-0000-0000-000000000001"
  parseUuid _ := none
  parseDatetime _ := none
  parseInt _ := none
  lower text := text

/-- Two deliveries of a story stop, the first one before its issue is created. -/
theorem redelivery_idempotent_story :
    SeesCreated issueTracker ∧ deliver oneText issueTracker (fun _ _ _ => none) storyIntent 0
        (crashes issueTracker (deliverMappings oneText (fun _ _ _ => none) storyIntent) [1, 2] []) =
      deliver oneText issueTracker (fun _ _ _ => none) storyIntent 0 [] :=
  ⟨issueTracker_seesCreated,
    redelivery_idempotent issueTracker_seesCreated oneText _ storyIntent 0
      (.inr issueTracker_failsCleanly) [1, 2]⟩

end JiraSimulator
