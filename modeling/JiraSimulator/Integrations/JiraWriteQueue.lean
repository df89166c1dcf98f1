import JiraSimulator.Integrations.JiraIntentAdapter
import JiraSimulator.Library.Transition
import Mathlib.Logic.Function.Basic

/-!
# The write queue of the classic simulator

The rows of the queue, the operations on it, and Jira behind its client.
* `dispatch` is the program of one entry: the requests it makes, and what it returns or raises.
* `State.next` runs the operations: a batch reads the waiting entries, and then takes, dispatches
  and finishes one after another.  Each commit and each answer of Jira is an event of its own, so
  that other batches, the other operations and a crash come between any two of them.
* `system` is the transition system of these events, for a Jira whose workflow is a parameter.
-/

namespace JiraSimulator.WriteQueue

open Library.Redelivery Library.Redelivery.Script

/-! ### Rows -/

inductive EntryStatus where
  | pending
  | inFlight
  | done
  | failed
  | skipped
  deriving DecidableEq, Repr

/-- `JiraWriteQueueEntry`. -/
structure Entry where
  id : String
  teamId : ℤ
  issueId : Option ℤ
  operationType : String
  payload : JsonObject
  status : EntryStatus
  priority : ℕ
  createdAt : ℤ
  processedAt : Option ℤ
  attempts : ℕ
  lastError : Option String
  scheduledEventId : Option ℤ

/-- `OPERATION_PRIORITY`. -/
def operationPriority : List (String × ℕ) :=
  [("CREATE_SPRINT", 0), ("CREATE_ISSUE", 1), ("ADD_TO_SPRINT", 2), ("MOVE_TO_BACKLOG", 2),
    ("TRANSITION_ISSUE", 3), ("ADD_COMMENT", 4), ("CREATE_LINK", 5), ("UPDATE_ISSUE", 6),
    ("UPDATE_SPRINT_DETAILS", 7), ("UPDATE_SPRINT", 7), ("COMPLETE_SPRINT", 7),
    ("DELETE_SPRINT", 8)]

/-- The arguments of `enqueue`, with the identifier and the time that the new row gets. -/
structure NewEntry where
  id : String
  now : ℤ
  teamId : ℤ
  operationType : String
  payload : JsonObject
  issueId : Option ℤ
  scheduledEventId : Option ℤ

/-- The row that `enqueue` adds. -/
def NewEntry.row (new : NewEntry) : Entry where
  id := new.id
  teamId := new.teamId
  issueId := new.issueId
  operationType := new.operationType
  payload := new.payload
  status := .pending
  priority := (operationPriority.lookup new.operationType).getD 5
  createdAt := new.now
  processedAt := none
  attempts := 0
  lastError := none
  scheduledEventId := new.scheduledEventId

/-- The columns of an `Issue` that the queue writes. -/
structure LocalIssue where
  id : ℤ
  jiraIssueKey : Json
  jiraIssueId : String

/-- The column of a `Sprint` that the queue writes. -/
structure LocalSprint where
  id : ℤ
  jiraSprintId : Json

/-- What a session has changed in the rows that it loaded, by the identifier of the row. -/
abbrev Changes := List (String × (Entry → Entry))

/-- `session.commit()`: the changed columns are written. -/
def commit (changes : Changes) (entries : List Entry) : List Entry :=
  changes.foldl
    (fun entries change => entries.map fun e => if e.id = change.1 then change.2 e else e) entries

/-! ### The client -/

/-- The exceptions inside a dispatch, with their texts. -/
inductive QueueError where
  /-- `JiraRateLimitError`. -/
  | rateLimit (retryAfter : ℚ)
  | other (text : String)
  deriving DecidableEq, Repr

/-- The methods of the client that take the payload as it is. -/
inductive ClientMethod where
  | createIssue
  | updateIssue
  | addComment
  | createIssueLink
  | addIssuesToSprint
  | startSprint
  | completeSprint
  | deleteSprint
  | moveIssuesToBacklog
  | updateSprintDetails
  deriving DecidableEq, Repr

def ClientMethod.parameters : ClientMethod → List String
  | .createIssue => ["project_key", "issue_type", "summary", "fields"]
  | .updateIssue => ["issue_key", "fields"]
  | .addComment => ["issue_key", "body"]
  | .createIssueLink => ["link_type", "inward_key", "outward_key"]
  | .addIssuesToSprint => ["sprint_id", "issue_keys"]
  | .startSprint | .completeSprint | .deleteSprint | .updateSprintDetails => ["sprint_id"]
  | .moveIssuesToBacklog => ["issue_keys"]

/-- Does the method take further keywords? -/
def ClientMethod.takesMore : ClientMethod → Bool
  | .updateSprintDetails => true
  | _ => false

/-- Can the method be called with the payload as its keywords? -/
def ClientMethod.accepts (method : ClientMethod) (payload : JsonObject) : Bool :=
  method.parameters.all (fun name => (payload.lookup name).isSome) &&
    (method.takesMore || payload.all fun field => method.parameters.contains field.1)

/-- A transition of an issue, as Jira lists it. -/
structure Transition where
  id : Option String
  name : Option String
  toName : Option String
  deriving DecidableEq, Repr

/-- The requests of the client. -/
inductive QueueRequest where
  | createSprint (boardId name : Json) (startDate endDate : ℤ)
  | createIssue (arguments : JsonObject)
  | setEstimation (issueKey : Json) (boardId : ℤ) (value : ℚ)
  | updateIssue (issueKey : Json) (fields : JsonObject)
  | getIssueTransitions (issueKey : String)
  | transitionIssue (issueKey transitionId : String)
  | call (method : ClientMethod) (arguments : JsonObject)

def QueueRequest.Reply : QueueRequest → Type
  | .createSprint .. | .createIssue _ => JsonObject
  | .getIssueTransitions _ => List Transition
  | .setEstimation .. | .updateIssue .. | .transitionIssue .. | .call .. => Unit

/-- How a request ends: with its reply, or with what it raises. -/
abbrev Answer (request : QueueRequest) := Except QueueError request.Reply

/-- A program that awaits requests; what a request raises is handed to the program. -/
abbrev QueueScript := Script QueueRequest Answer QueueError

/-- `await` of a request. -/
def await (r : QueueRequest) : QueueScript r.Reply := do
  lift (← request r)

/-- `await` of a request inside `try` with an `except` that only logs. -/
def attempt (r : QueueRequest) : QueueScript Unit := do
  let _ ← request r
  return ()

def raise {α : Type} (text : String) : QueueScript α :=
  throw (.other text)

/-! ### Dispatch -/

/-- What the queue takes from the standard library. -/
structure PythonLibrary where
  /-- `str(value)`. -/
  text : Json → String
  /-- `str(value)` of a time. -/
  datetimeText : ℤ → String
  /-- `str(values)` of a list of names. -/
  namesText : List (Option String) → String
  /-- `value.lower()` of a text. -/
  lower : String → String
  /-- `int(value)`, unless it raises. -/
  toInt : Json → Option ℤ
  /-- `float(value)`, unless it raises. -/
  toFloat : Json → Option ℚ
  /-- `datetime.fromisoformat(value)`, or the text of what it raises. -/
  fromIsoFormat : Json → Except String ℤ
  /-- The text of the `TypeError` of a call with wrong keywords. -/
  argumentError : ClientMethod → JsonObject → String
  /-- The text of the `AttributeError` of `value.lower()`. -/
  attributeError : Json → String
  /-- The text of the `TypeError` of a key that cannot be hashed. -/
  unhashable : Json → String

/-- `bool(value)`. -/
def truthy : Json → Bool
  | .null => false
  | .bool value => value
  | .number value => value ≠ 0
  | .string value => value ≠ ""
  | .array items => !items.isEmpty
  | .object fields => !fields.isEmpty

/-- `payload[key]`. -/
def item (payload : JsonObject) (key : String) : QueueScript Json :=
  match payload.lookup key with
  | some value => pure value
  | none => raise ("'" ++ key ++ "'")

/-- The dictionary without a key. -/
def without (payload : JsonObject) (key : String) : JsonObject :=
  payload.filter fun field => field.1 ≠ key

/-- `_extract_post_create_fields`: the payload that is left, and the custom fields. -/
def extractPostCreateFields (payload : JsonObject) : JsonObject × JsonObject :=
  match payload.lookup "fields" with
  | some (.object fields) =>
    let isCustom := fun field : String × Json => "customfield_".toList.isPrefixOf field.1.toList
    (payload.map fun field =>
        if field.1 = "fields" then ("fields", .object (fields.filter fun f => !isCustom f))
        else field,
      fields.filter isCustom)
  | _ => (payload, [])

/-- The first transition that leads to a status or is named as it. -/
def transitionTo (transitions : List Transition) (status : Json) : Option Transition :=
  transitions.find? fun t =>
    Json.isText (t.toName.getD "") status ||
      match t.name with
      | some name => Json.isText name status
      | none => match status with
        | .null => true
        | _ => false

/-- What `_dispatch` returns, with the sprint that it maps. -/
structure Dispatched where
  result : Option JsonObject
  mappedSprint : Option Json

variable (library : PythonLibrary)

/-- `datetime.fromisoformat(value)`. -/
def isoTime (value : Json) : QueueScript ℤ :=
  match library.fromIsoFormat value with
  | .ok time => pure time
  | .error text => raise text

/-- `custom_fields.pop(sp_field_id, None) if sp_field_id else None`: the story points, and the
fields that are left. -/
def popStoryPoints (customFields : JsonObject) (spFieldId : Json) :
    QueueScript (Json × JsonObject) :=
  if truthy spFieldId then
    match spFieldId with
    | .string key => pure ((customFields.lookup key).getD .null, without customFields key)
    | .array _ | .object _ => raise (library.unhashable spFieldId)
    | _ => pure (.null, customFields)
  else pure (.null, customFields)

/-- `issue_type.lower() in ("story",)`. -/
def estimable (issueType : Json) : QueueScript Bool :=
  match issueType with
  | .string value => pure (decide (library.lower value = "story"))
  | value => raise (library.attributeError value)

/-- `_set_estimation_and_fields`. -/
def setEstimationAndFields (issueKey : Json) (customFields : JsonObject)
    (spFieldId boardId issueType : Json) : QueueScript Unit := do
  let (spValue, customFields) ← popStoryPoints library customFields spFieldId
  let estimable ← estimable library issueType
  let isNone := match spValue with
    | .null => true
    | _ => false
  if !isNone && truthy boardId && estimable then
    -- the conversions are inside the `try`
    match library.toInt boardId, library.toFloat spValue with
    | some board, some value => attempt (.setEstimation issueKey board value)
    | _, _ => pure ()
  if customFields.isEmpty then pure ()
  else attempt (.updateIssue issueKey customFields)

/-- `_resolve_and_transition`. -/
def resolveAndTransition (payload : JsonObject) : QueueScript Unit := do
  let issueKey ← item payload "issue_key"
  let targetStatus := (payload.lookup "target_status").getD (.string "")
  let key := library.text issueKey
  let transitions ← await (.getIssueTransitions key)
  match transitionTo transitions targetStatus with
  | some transition =>
    match transition.id with
    | some id => await (.transitionIssue key id)
    | none => raise "'id'"
  | none =>
    let available := transitions.map fun t => match t.toName with
      | some name => some name
      | none => t.name
    raise ("No transition to '" ++ library.text targetStatus ++ "' for " ++ key ++
      ". Available: " ++ library.namesText available)

/-- The method of an operation that has no step of its own. -/
def methodOf (operationType : String) : Option ClientMethod :=
  [("UPDATE_ISSUE", ClientMethod.updateIssue), ("ADD_COMMENT", .addComment),
    ("CREATE_LINK", .createIssueLink), ("ADD_TO_SPRINT", .addIssuesToSprint),
    ("UPDATE_SPRINT", .startSprint), ("COMPLETE_SPRINT", .completeSprint),
    ("DELETE_SPRINT", .deleteSprint), ("MOVE_TO_BACKLOG", .moveIssuesToBacklog),
    ("UPDATE_SPRINT_DETAILS", .updateSprintDetails)].lookup operationType

/-- The branch of `CREATE_SPRINT`. -/
def dispatchSprint (payload : JsonObject) : QueueScript Dispatched := do
  let sprintDbId := payload.get "_sprint_db_id"
  let boardId ← item payload "board_id"
  let name ← item payload "name"
  let startDate ← isoTime library (← item payload "start_date")
  let endDate ← isoTime library (← item payload "end_date")
  let result ← await (.createSprint boardId name startDate endDate)
  return { result := some result
           mappedSprint := if truthy sprintDbId && !result.isEmpty then some sprintDbId else none }

/-- The branch of `CREATE_ISSUE`. -/
def dispatchIssue (payload : JsonObject) : QueueScript Dispatched := do
  let (payload, postCreateFields) := extractPostCreateFields payload
  let spFieldId := payload.get "_sp_field_id"
  let boardId := payload.get "_board_id"
  let payload := without (without payload "_sp_field_id") "_board_id"
  let issueType := (payload.lookup "issue_type").getD (.string "")
  if ClientMethod.createIssue.accepts payload then
    let result ← await (.createIssue payload)
    let issueKey := result.get "key"
    if truthy issueKey then
      setEstimationAndFields library issueKey postCreateFields spFieldId boardId issueType
    return { result := some result, mappedSprint := none }
  else raise (library.argumentError .createIssue payload)

/-- `_dispatch`. -/
def dispatch (entry : Entry) : QueueScript Dispatched := do
  match entry.operationType with
  | "CREATE_SPRINT" => dispatchSprint library entry.payload
  | "CREATE_ISSUE" => dispatchIssue library entry.payload
  | "TRANSITION_ISSUE" =>
    resolveAndTransition library entry.payload
    return { result := none, mappedSprint := none }
  | operationType =>
    match methodOf operationType with
    | some method =>
      if method.accepts entry.payload then
        await (.call method entry.payload)
        return { result := none, mappedSprint := none }
      else raise (library.argumentError method entry.payload)
    | none => raise ("Unknown operation: " ++ operationType)

/-! ### The queue -/

/-- `JiraHealthMonitor.status`. -/
inductive HealthStatus where
  | online
  | offline
  | recovering
  deriving DecidableEq, Repr

/-- Where a running `process_batch` is. -/
inductive Stage where
  /-- Before its next entry, after a sleep. -/
  | waiting (seconds : ℚ)
  /-- Inside `process_one`, with the entry as the session loaded it and the program that is left. -/
  | dispatching (entry : Entry) (script : QueueScript Dispatched)

/-- A running `process_batch`: the entries it still holds, and its delay between them. -/
structure Batch where
  stage : Stage
  rest : List String
  delay : ℚ

/-- What has happened to the entries. -/
inductive Happened where
  /-- The entry became `PENDING`. -/
  | pending (id : String)
  /-- A batch called `_dispatch` on the entry. -/
  | dispatched (id : String) (batch : ℕ)
  /-- Jira moved an issue for the entry. -/
  | moved (id issueKey status : String)
  deriving DecidableEq, Repr

/-- The database, the running batches, and Jira. -/
structure State where
  /-- The rows of the queue, in the order in which they were added. -/
  entries : List Entry
  issues : List LocalIssue
  sprints : List LocalSprint
  batches : ℕ → Option Batch
  /-- The status of each issue of Jira. -/
  status : String → String
  /-- What has happened, the latest first. -/
  history : List Happened

def State.find (s : State) (id : String) : Option Entry :=
  s.entries.find? fun e => e.id = id

/-- The order of a batch. -/
def Entry.before (a b : Entry) : Prop :=
  a.priority < b.priority ∨ a.priority = b.priority ∧ a.createdAt ≤ b.createdAt

instance (a b : Entry) : Decidable (a.before b) :=
  inferInstanceAs (Decidable (_ ∨ _))

/-- The rows with a status. -/
def withStatus (status : EntryStatus) (entries : List Entry) : List Entry :=
  entries.filter fun e => e.status = status

/-- A list that `get_pending_batch` may return: the order leaves ties open. -/
def IsPendingBatch (entries batch : List Entry) : Prop :=
  batch.Perm (withStatus .pending entries) ∧ batch.Pairwise Entry.before

/-- A list that the query of `run_recovery` may return. -/
def IsPendingByAge (entries pending : List Entry) : Prop :=
  pending.Perm (withStatus .pending entries) ∧ pending.Pairwise fun a b => a.createdAt ≤ b.createdAt

/-- `MIN_DELAY_SECONDS`. -/
def minDelaySeconds : ℚ := 1 / 5

/-- The delay of a batch. -/
def batchDelay (tickIntervalSeconds : ℚ) (count : ℕ) : ℚ :=
  max (tickIntervalSeconds * (4 / 5) / count) minDelaySeconds

def State.setBatch (s : State) (b : ℕ) (batch : Option Batch) : State :=
  { s with batches := Function.update s.batches b batch }

/-! ### Operations -/

def State.record (s : State) (happened : List Happened) : State :=
  { s with history := happened ++ s.history }

def State.commit (s : State) (changes : Changes) : State :=
  { s with entries := WriteQueue.commit changes s.entries }

/-- `enqueue`, with the commit of its session. -/
def State.enqueue (s : State) (new : NewEntry) : State :=
  { s with entries := s.entries ++ [new.row], history := .pending new.id :: s.history }

/-- The start of `process_batch`; without entries it ends at once. -/
def State.processBatch (s : State) (b : ℕ) (health : HealthStatus) (tickIntervalSeconds : ℚ)
    (batch : List Entry) : State :=
  if health = .offline then s
  else if batch.isEmpty then s
  else s.setBatch b (some
    { stage := .waiting 0
      rest := batch.map (·.id)
      delay := batchDelay tickIntervalSeconds batch.length })

/-- `process_one` up to its first commit; the row is loaded again after it. -/
def State.take (s : State) (b : ℕ) (batch : Batch) (entry : Entry) (rest : List String) : State :=
  let loaded := { entry with status := .inFlight }
  ((s.commit [(entry.id, fun e => { e with status := .inFlight })]).record
      [.dispatched entry.id b]).setBatch b
    (some { batch with stage := .dispatching loaded (dispatch library loaded), rest := rest })

/-- Jira answers the request that a batch awaits.  An issue is moved when the request succeeds, and
it may have been moved when the answer is an error. -/
def State.answer (s : State) (workflow : String → String → String) (b : ℕ) (batch : Batch)
    (entry : Entry) (request : QueueRequest) (next : Answer request → QueueScript Dispatched)
    (answer : Answer request) (reached : Bool) : State :=
  let s := s.setBatch b (some { batch with stage := .dispatching entry (next answer) })
  match request with
  | .transitionIssue key id =>
    if answer.isOk || reached then
      { s with
        status := Function.update s.status key (workflow key id)
        history := .moved entry.id key (workflow key id) :: s.history }
    else s
  | _ => s

/-- `_map_issue_key`. -/
def mapIssueKey (issues : List LocalIssue) (issueId : ℤ) (response : JsonObject) :
    List LocalIssue :=
  issues.map fun issue =>
    if issue.id = issueId then
      { issue with
        jiraIssueKey := response.get "key"
        jiraIssueId := library.text ((response.lookup "id").getD (.string "")) }
    else issue

/-- `_map_sprint_id`. -/
def mapSprintId (sprints : List LocalSprint) (sprintDbId : Json) (response : JsonObject) :
    List LocalSprint :=
  sprints.map fun sprint =>
    match sprintDbId with
    | .number id =>
      if id = sprint.id then { sprint with jiraSprintId := response.get "id" } else sprint
    | _ => sprint

/-- The tables of issues and sprints after a dispatch that returned. -/
def State.mapped (s : State) (entry : Entry) (dispatched : Dispatched) : State :=
  match dispatched.result with
  | none => s
  | some result =>
    let s := match dispatched.mappedSprint with
      | some sprintDbId => { s with sprints := mapSprintId s.sprints sprintDbId result }
      | none => s
    match entry.issueId with
    | some issueId =>
      if entry.operationType = "CREATE_ISSUE" ∧ result ≠ [] then
        { s with issues := mapIssueKey library s.issues issueId result }
      else s
    | none => s

/-- The end of `process_one`, and of the loop's step around it: a rate limit with a pause ends the
loop. -/
def State.finish (s : State) (b : ℕ) (batch : Batch) (entry : Entry) (now : ℤ)
    (result : Except QueueError Dispatched) : State :=
  let goesOn := some { batch with stage := .waiting batch.delay }
  match result with
  | .ok dispatched =>
    ((s.mapped library entry dispatched).commit
      [(entry.id, fun e => { e with status := .done, processedAt := some now })]).setBatch b goesOn
  | .error (.rateLimit retryAfter) =>
    ((s.commit [(entry.id, fun e => { e with status := .pending })]).record
        [.pending entry.id]).setBatch b
      (if retryAfter ≠ 0 then some { batch with stage := .waiting retryAfter, rest := [] }
        else goesOn)
  | .error (.other text) =>
    (s.commit [(entry.id, fun e =>
        { e with
          status := .failed
          attempts := entry.attempts + 1
          lastError := some (String.ofList (text.toList.take 500)) })]).setBatch b goesOn

/-- `retry_failed`. -/
def State.retryFailed (s : State) : State :=
  let failed := withStatus .failed s.entries
  let reset : Entry → Entry := fun e => { e with status := .pending, attempts := 0 }
  (s.commit (failed.map fun e => (e.id, reset))).record (failed.map fun e => .pending e.id)

/-- `_group_by_issue`. -/
def groupByIssue (entries : List Entry) : List (Option ℤ × List Entry) :=
  entries.foldl
    (fun groups e =>
      if groups.any fun group => group.1 = e.issueId then
        groups.map fun group => if group.1 = e.issueId then (group.1, group.2 ++ [e]) else group
      else groups ++ [(e.issueId, [e])]) []

/-- `_build_catchup_comment`. -/
def catchupComment (entries : List Entry) : Option JsonObject :=
  match entries.head?, entries.getLast? with
  | some first, some last =>
    let issueKey := first.payload.get "issue_key"
    if truthy issueKey then
      some [("issue_key", issueKey), ("body", .string
        ("[Simulator] Sync resumed after outage. State fast-forwarded from " ++
          library.datetimeText first.createdAt ++ " to " ++ library.datetimeText last.createdAt ++
          " (" ++ toString entries.length ++
          " ticks). Internal simulation continued uninterrupted."))]
    else none
  | _, _ => none

/-- `_collapse_and_write`: what is changed in the session that loaded the entries, and what the
session that is committed holds.  They are two sessions, and the first one is never committed. -/
def collapse (entries : List Entry) : Changes × Changes :=
  (entries.map (fun e => (e.id, fun e => { e with status := .skipped })) ++
      entries.getLast?.toList.map (fun e => (e.id, fun e => { e with status := .pending })),
    [])

/-- The comments of `run_recovery`, each for one issue. -/
def recoveryComments (pending : List Entry) : List (ℤ × ℤ × JsonObject) :=
  (groupByIssue pending).filterMap fun group =>
    match group.1, group.2.getLast?, catchupComment library group.2 with
    | some issueId, some last, some payload => some (last.teamId, issueId, payload)
    | _, _, _ => none

/-- `run_recovery`, with the identifiers and times of the comments that it came to add. -/
def State.runRecovery (s : State) (pending : List Entry) (stamps : List (String × ℤ)) : State :=
  let s := (groupByIssue pending).foldl (fun s group => s.commit (collapse group.2).2) s
  (stamps.zip (recoveryComments library pending)).foldl
    (fun s comment => s.enqueue
      { id := comment.1.1
        now := comment.1.2
        teamId := comment.2.1
        operationType := "ADD_COMMENT"
        payload := comment.2.2.2
        issueId := some comment.2.2.1
        scheduledEventId := none }) s

/-! ### Runs -/

inductive Event where
  | enqueue (new : NewEntry)
  | processBatch (b : ℕ) (health : HealthStatus) (tickIntervalSeconds : ℚ) (batch : List Entry)
  | take (b : ℕ)
  /-- Jira handles the request that the batch awaits; `reached` says whether a request that fails
  has moved its issue. -/
  | answer (b : ℕ) (answers : (request : QueueRequest) → Answer request) (reached : Bool)
  | finish (b : ℕ) (now : ℤ)
  | close (b : ℕ)
  | retryFailed
  | runRecovery (pending : List Entry) (stamps : List (String × ℤ))
  /-- The process ends and is started again. -/
  | crash

/-- The state after an event; `none` when the event cannot come. -/
def State.next (workflow : String → String → String) (s : State) : Event → Option State
  | .enqueue new => some (s.enqueue new)
  | .processBatch b health tickIntervalSeconds batch =>
    some (s.processBatch b health tickIntervalSeconds batch)
  | .take b =>
    match s.batches b with
    | some batch =>
      match batch.stage, batch.rest with
      | .waiting _, id :: rest => (s.find id).map fun entry => s.take library b batch entry rest
      | _, _ => none
    | none => none
  | .answer b answers reached =>
    match s.batches b with
    | some batch =>
      match batch.stage with
      | .dispatching entry (.call request next) =>
        some (s.answer workflow b batch entry request next (answers request) reached)
      | _ => none
    | none => none
  | .finish b now =>
    match s.batches b with
    | some batch =>
      match batch.stage with
      | .dispatching entry (.done result) => some (s.finish library b batch entry now result)
      | _ => none
    | none => none
  | .close b =>
    match s.batches b with
    | some batch =>
      match batch.stage, batch.rest with
      | .waiting _, [] => some (s.setBatch b none)
      | _, _ => none
    | none => none
  | .retryFailed => some s.retryFailed
  | .runRecovery pending stamps => some (s.runRecovery library pending stamps)
  | .crash => some { s with batches := fun _ => none }

/-- What the database and Jira promise: identifiers of rows are unique, queries return what they ask
for, and a listed transition leads where the workflow says. -/
def Possible (workflow : String → String → String) (s : State) : Event → Prop
  | .enqueue new => s.find new.id = none
  | .processBatch b _ _ batch => s.batches b = none ∧ IsPendingBatch s.entries batch
  | .answer _ answers _ => ∀ key (transitions : List Transition),
      answers (.getIssueTransitions key) = .ok transitions →
        ∀ t ∈ transitions, ∀ id, t.id = some id → t.toName = some (workflow key id)
  | .runRecovery pending stamps => IsPendingByAge s.entries pending ∧
      (stamps.map Prod.fst).Nodup ∧ ∀ stamp ∈ stamps, s.find stamp.1 = none
  | _ => True

/-- An empty queue. -/
def initial (issues : List LocalIssue) (sprints : List LocalSprint) (status : String → String) :
    State where
  entries := []
  issues := issues
  sprints := sprints
  batches := fun _ => none
  status := status
  history := []

open Library.Transition in
/-- The queue, with a Jira whose workflow says where a transition of an issue leads. -/
def system (workflow : String → String → String) :
    System (List LocalIssue × List LocalSprint × (String → String)) State Event where
  start i s := s = initial i.1 i.2.1 i.2.2
  step s e s' := Possible workflow s e ∧ s.next library workflow e = some s'

end JiraSimulator.WriteQueue
