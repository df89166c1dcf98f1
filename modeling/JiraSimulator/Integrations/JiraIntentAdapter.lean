import JiraSimulator.Application.JiraDelivery
import JiraSimulator.Library.Redelivery

/-!
# The adapter that delivers intents to Jira

`deliver` reads the document of an intent and makes requests of Jira through the methods of its
client. Jira itself is a parameter: a service that answers the requests.  An exception of a request
or of the adapter ends the delivery and becomes one of the outcomes that the worker knows.
-/

namespace JiraSimulator

open Library.Redelivery Library.Redelivery.Script

/-! ### Documents -/

/-- A JSON value. -/
inductive Json where
  | null
  | bool (value : Bool)
  | number (value : ℚ)
  | string (value : String)
  | array (items : List Json)
  | object (fields : List (String × Json))

abbrev JsonObject := List (String × Json)

/-- What the adapter takes from the standard library. -/
structure TextLibrary where
  /-- `str(value)` of a `UUID`. -/
  uuidText : Uuid → String
  /-- `UUID(str(value))`, unless it raises. -/
  parseUuid : Json → Option Uuid
  /-- `datetime.fromisoformat(value)`, unless it raises: the instant, if the value is aware. -/
  parseDatetime : String → Option (Option ℤ)
  /-- `int(value)` of a text, unless it raises. -/
  parseInt : String → Option ℤ
  /-- `value.lower()`. -/
  lower : String → String

/-- The exceptions inside the adapter. -/
inductive AdapterError where
  /-- `JiraRateLimitError`, with the time to wait and its text in seconds. -/
  | rateLimit (retryAfter : ℤ) (seconds : String)
  /-- Another `JiraApiError`, or `httpx.TransportError`. -/
  | api (message : String)
  /-- `JiraDeliveryProviderError`. -/
  | provider (message : String)
  | python (error : PyError)
  deriving DecidableEq, Repr

abbrev Decoded := Except AdapterError

/-- `payload.get(key)`. -/
def JsonObject.get (payload : JsonObject) (key : String) : Json :=
  (payload.lookup key).getD .null

/-- `_string`. -/
def stringField (payload : JsonObject) (key : String) : Decoded String :=
  match payload.get key with
  | .string value =>
    if isNonEmptyText value then .ok value
    else .error (.provider (key ++ " must be a non-empty string"))
  | _ => .error (.provider (key ++ " must be a non-empty string"))

/-- `_object`, with the empty object as its default. -/
def objectField (payload : JsonObject) (key : String) : Decoded JsonObject :=
  match payload.lookup key with
  | none => .ok []
  | some (.object fields) => .ok fields
  | some _ => .error (.provider (key ++ " must be an object"))

variable (library : TextLibrary)

/-- `_uuid`. -/
def uuidField (payload : JsonObject) (key : String) (default : Option Uuid) : Decoded Uuid :=
  match payload.get key, default with
  | .null, some default => .ok default
  | value, _ =>
    match library.parseUuid value with
    | some id => .ok id
    | none => .error (.provider (key ++ " must be a UUID"))

/-- `_uuid_list`. -/
def uuidList (value : Json) (key : String) : Decoded (List Uuid) :=
  match value with
  | .array items =>
    match items.mapM library.parseUuid with
    | some ids => .ok ids
    | none => .error (.provider (key ++ " must contain UUIDs"))
  | _ => .error (.provider (key ++ " must be a list"))

/-- `_datetime`. -/
def datetimeField (payload : JsonObject) (key : String) : Decoded ℤ := do
  let value ← stringField payload key
  match library.parseDatetime value with
  | none => .error (.provider (key ++ " must be an ISO datetime"))
  | some none => .error (.provider (key ++ " must be an aware datetime"))
  | some (some instant) => .ok instant

/-- `int(value)`. -/
def intOf (value : String) : Decoded ℤ :=
  match library.parseInt value with
  | some number => .ok number
  | none => .error (.python (.valueError "invalid literal for int() with base 10"))

/-- `_marker`. -/
def marker (internalId : Uuid) : String :=
  "sim-v2-" ++ library.uuidText internalId

/-- `part in text`. -/
def contains (text part : String) : Bool :=
  part.toList <:+: text.toList

/-! ### Requests -/

/-- A project, board, issue or sprint as Jira shows it: `str(provider["id"])` when there is an
identifier, and the text of `provider.get("key")`. -/
structure JiraResource where
  id : Option String
  key : Option String
  deriving DecidableEq, Repr

/-- A sprint of a board, with the texts of its name and its goal. -/
structure JiraSprint extends JiraResource where
  name : String
  goal : String
  deriving DecidableEq, Repr

/-- A transition of an issue; reading the status that it leads to may raise. -/
structure JiraTransition where
  id : Option String
  name : Option String
  toName : Result (Option String)

/-- The methods of the client. -/
inductive JiraRequest where
  | getProject (projectKey : String)
  | createProject (key name boardType : String)
  | getBoard (projectKey : String)
  | searchIssues (jql : String) (fields : List String) (maxResults : ℕ)
  | createIssue (projectKey issueType summary : String) (fields : JsonObject)
  | getBoardSprints (boardId : ℤ)
  | createSprint (boardId : ℤ) (name : String) (startAt endAt : ℤ)
  | getSprintIssues (sprintId : ℤ) (maxResults : ℕ)
  | addIssuesToSprint (sprintId : ℤ) (issueKeys : List (Option String))
  | getSprint (sprintId : ℤ)
  /-- `start_sprint` and `complete_sprint`. -/
  | setSprintState (sprintId : ℤ) (state : String)
  | getIssue (issueKey : String)
  | getIssueTransitions (issueKey : String)
  | transitionIssue (issueKey transitionId : String)

def JiraRequest.Reply : JiraRequest → Type
  | .getProject _ => Option JiraResource
  | .createProject .. => JiraResource
  | .getBoard _ => Option JiraResource
  | .searchIssues .. => List JiraResource
  | .createIssue .. => JiraResource
  | .getBoardSprints _ => List JiraSprint
  | .createSprint .. => JiraSprint
  -- the texts of the keys
  | .getSprintIssues .. => List (Option String)
  | .addIssuesToSprint .. => Unit
  -- the state of the sprint
  | .getSprint _ => Option String
  | .setSprintState .. => Unit
  -- the name of the status of the issue
  | .getIssue _ => Result (Option String)
  | .getIssueTransitions _ => List JiraTransition
  | .transitionIssue .. => Unit

def JiraRequest.isLookup : JiraRequest → Bool
  | .getProject _ | .getBoard _ | .searchIssues .. | .getBoardSprints _ | .getSprintIssues ..
  | .getSprint _ | .getIssue _ | .getIssueTransitions _ => true
  | .createProject .. | .createIssue .. | .createSprint .. | .addIssuesToSprint ..
  | .setSprintState .. | .transitionIssue .. => false

/-- Jira, as its client shows it. -/
abbrev JiraService (σ : Type) := Service JiraRequest JiraRequest.Reply AdapterError σ

abbrev Delivery := Script JiraRequest JiraRequest.Reply AdapterError

namespace JiraClient

def getProject (projectKey : String) : Delivery (Option JiraResource) :=
  request (JiraRequest.getProject projectKey)

def createProject (key name boardType : String) : Delivery JiraResource :=
  request (JiraRequest.createProject key name boardType)

def getBoard (projectKey : String) : Delivery (Option JiraResource) :=
  request (JiraRequest.getBoard projectKey)

def searchIssues (jql : String) (fields : List String) (maxResults : ℕ) :
    Delivery (List JiraResource) :=
  request (JiraRequest.searchIssues jql fields maxResults)

def createIssue (projectKey issueType summary : String) (fields : JsonObject) :
    Delivery JiraResource :=
  request (JiraRequest.createIssue projectKey issueType summary fields)

def getBoardSprints (boardId : ℤ) : Delivery (List JiraSprint) :=
  request (JiraRequest.getBoardSprints boardId)

def createSprint (boardId : ℤ) (name : String) (startAt endAt : ℤ) : Delivery JiraSprint :=
  request (JiraRequest.createSprint boardId name startAt endAt)

def getSprintIssues (sprintId : ℤ) (maxResults : ℕ) : Delivery (List (Option String)) :=
  request (JiraRequest.getSprintIssues sprintId maxResults)

def addIssuesToSprint (sprintId : ℤ) (issueKeys : List (Option String)) : Delivery Unit :=
  request (JiraRequest.addIssuesToSprint sprintId issueKeys)

def getSprint (sprintId : ℤ) : Delivery (Option String) :=
  request (JiraRequest.getSprint sprintId)

def setSprintState (sprintId : ℤ) (state : String) : Delivery Unit :=
  request (JiraRequest.setSprintState sprintId state)

def getIssue (issueKey : String) : Delivery (Result (Option String)) :=
  request (JiraRequest.getIssue issueKey)

def getIssueTransitions (issueKey : String) : Delivery (List JiraTransition) :=
  request (JiraRequest.getIssueTransitions issueKey)

def transitionIssue (issueKey transitionId : String) : Delivery Unit :=
  request (JiraRequest.transitionIssue issueKey transitionId)

end JiraClient

/-! ### Operations -/

/-- The fields of a pending intent that the adapter reads. -/
structure JiraIntent where
  id : IntentId
  teamId : Uuid
  aggregateId : Uuid
  operationType : String
  /-- `json.loads(canonical_payload)`, unless it raises. -/
  document : Option Json

/-- `find_mapping` of the store. -/
abbrev MappingReader := Uuid → String → Uuid → Option JiraResourceMapping

/-- `_resource_mapping`. -/
def resourceMapping (intent : JiraIntent) (internalKind : String) (internalId : Uuid)
    (provider : JiraResource) : Decoded JiraResourceMapping :=
  match provider.id with
  | none => .error (.python .keyError)
  | some jiraId =>
    let mapping : JiraResourceMapping :=
      { teamId := intent.teamId, internalKind, internalId, jiraId, jiraKey := provider.key }
    match mapping.validate with
    | .ok _ => .ok mapping
    | .error error => .error (.python error)

/-- `_required_mapping`. -/
def requiredMapping (mappings : MappingReader) (intent : JiraIntent) (internalKind : String)
    (internalId : Uuid) : Decoded JiraResourceMapping :=
  match mappings intent.teamId internalKind internalId with
  | some mapping => .ok mapping
  | none => .error (.provider
      ("missing " ++ internalKind ++ " mapping for " ++ library.uuidText internalId))

/-- `_create_project`. -/
def createProject (intent : JiraIntent) (payload : JsonObject) :
    Delivery (List JiraResourceMapping) := do
  let projectKey ← lift (stringField payload "project_key")
  let project ← ensure (JiraClient.getProject projectKey) do
    let name ← lift (stringField payload "name")
    let boardType ← lift (stringField payload "board_type")
    JiraClient.createProject projectKey name (library.lower boardType)
  let mapping ← lift (resourceMapping intent "PROJECT" intent.aggregateId project)
  return [mapping]

/-- `_create_board`: a new project comes with its board. -/
def createBoard (intent : JiraIntent) (payload : JsonObject) :
    Delivery (List JiraResourceMapping) := do
  let projectKey ← lift (stringField payload "project_key")
  let board ← do
    match ← JiraClient.getBoard projectKey with
    | some board => pure (some board)
    | none =>
      match ← JiraClient.getProject projectKey with
      | some _ => pure none
      | none =>
        let name ← lift (stringField payload "project_name")
        let boardType ← lift (stringField payload "board_type")
        let _ ← JiraClient.createProject projectKey name (library.lower boardType)
        JiraClient.getBoard projectKey
  match board with
  | none => throw (.provider "Jira project exists without its expected board")
  | some board =>
    let mapping ← lift (resourceMapping intent "BOARD" intent.aggregateId board)
    return [mapping]

/-- `list(value)`. -/
def listOf : Json → Decoded (List Json)
  | .array items => .ok items
  | .string value => .ok (value.toList.map fun c => .string (String.singleton c))
  | .object fields => .ok (fields.map fun field => .string field.1)
  | _ => .error (.python (.typeError "object is not iterable"))

/-- Is the value the given text? -/
def Json.isText (text : String) : Json → Bool
  | .string value => value = text
  | _ => false

/-- The fields of an issue, with its marker among the labels. -/
def markedFields (payload : JsonObject) (marker : String) : Decoded JsonObject := do
  let fields ← objectField payload "fields"
  let labels ← listOf ((fields.lookup "labels").getD (.array []))
  let labels := if labels.any (Json.isText marker) then labels else labels ++ [.string marker]
  return fields.filter (fun field => field.1 ≠ "labels") ++ [("labels", .array labels)]

/-- `_create_marked_issue`. -/
def createMarkedIssue (payload : JsonObject) (marker : String) : Delivery JiraResource := do
  let fields ← lift (markedFields payload marker)
  let projectKey ← lift (stringField payload "project_key")
  let issueType ← lift (stringField payload "issue_type")
  let summary ← lift (stringField payload "summary")
  JiraClient.createIssue projectKey issueType summary fields

/-- The query for the issues with a label. -/
def labelQuery (label : String) : String :=
  "labels = \"" ++ label ++ "\""

/-- The only match, if there is one. -/
def onlyMatch {α : Type} (found : List α) (error : String) : Decoded (Option α) :=
  if found.length > 1 then .error (.provider error) else .ok found.head?

/-- `_create_issue`. -/
def createIssue (intent : JiraIntent) (payload : JsonObject) :
    Delivery (List JiraResourceMapping) := do
  let issueId ← lift (uuidField library payload "issue_id" (some intent.aggregateId))
  let marker := marker library issueId
  let find : Delivery (Option JiraResource) := do
    let found ← JiraClient.searchIssues (labelQuery marker) ["key", "labels"] 2
    lift (onlyMatch found ("multiple Jira issues carry marker " ++ marker))
  let issue ← ensure find (createMarkedIssue payload marker)
  let mapping ← lift (resourceMapping intent "ISSUE" issueId issue)
  return [mapping]

/-- `_create_sprint`. -/
def createSprint (mappings : MappingReader) (intent : JiraIntent) (payload : JsonObject) :
    Delivery (List JiraResourceMapping) := do
  let sprintId ← lift (uuidField library payload "sprint_id" (some intent.aggregateId))
  let boardUuid ← lift (uuidField library payload "board_id" none)
  let board ← lift (requiredMapping library mappings intent "BOARD" boardUuid)
  let boardId ← lift (intOf library board.jiraId)
  let marker := marker library sprintId
  let find : Delivery (Option JiraSprint) := do
    let sprints ← JiraClient.getBoardSprints boardId
    let found := sprints.filter fun sprint =>
      contains sprint.name marker || contains sprint.goal marker
    lift (onlyMatch found ("multiple Jira sprints carry marker " ++ marker))
  let sprint ← ensure find do
    let name ← lift (stringField payload "name")
    let startAt ← lift (datetimeField library payload "start_at")
    let endAt ← lift (datetimeField library payload "end_at")
    JiraClient.createSprint boardId (name ++ " [" ++ marker ++ "]") startAt endAt
  let mapping ← lift (resourceMapping intent "SPRINT" sprintId sprint.toJiraResource)
  return [mapping]

/-- `{str(issue["key"]) for issue in existing}`. -/
def issueKeys (existing : List (Option String)) : Decoded (List String) :=
  match existing.mapM id with
  | some keys => .ok keys
  | none => .error (.python .keyError)

/-- The keys of the issues that are not among the existing ones. -/
def missingKeys (issues : List JiraResourceMapping) (existing : List String) :
    List (Option String) :=
  (issues.map (·.jiraKey)).filter fun key => key ∉ existing.map some

/-- `_scope_sprint`. -/
def scopeSprint (mappings : MappingReader) (intent : JiraIntent) (payload : JsonObject) :
    Delivery (List JiraResourceMapping) := do
  let sprintUuid ← lift (uuidField library payload "sprint_id" none)
  let sprint ← lift (requiredMapping library mappings intent "SPRINT" sprintUuid)
  match payload.lookup "issue_ids" with
  | none => throw (.provider "issue_ids is required for SCOPE_SPRINT")
  | some value =>
    let issueIds ← lift (uuidList library value "issue_ids")
    let issues ← lift (issueIds.mapM (requiredMapping library mappings intent "ISSUE"))
    let sprintId ← lift (intOf library sprint.jiraId)
    let existing ← JiraClient.getSprintIssues sprintId 100
    let existingKeys ← lift (issueKeys existing)
    match missingKeys issues existingKeys with
    | [] => return []
    | key :: keys =>
      let _ ← JiraClient.addIssuesToSprint sprintId (key :: keys)
      return []

/-- `_start_sprint` and `_complete_sprint`, up to the state that the sprint is moved to. -/
def moveSprint (target : String) (mappings : MappingReader) (intent : JiraIntent)
    (payload : JsonObject) : Delivery (List JiraResourceMapping) := do
  let sprintUuid ← lift (uuidField library payload "sprint_id" none)
  let mapping ← lift (requiredMapping library mappings intent "SPRINT" sprintUuid)
  let sprintId ← lift (intOf library mapping.jiraId)
  let state ← JiraClient.getSprint sprintId
  if state = some target then
    return []
  else
    let _ ← JiraClient.setSprintState sprintId target
    return []

/-- `_start_sprint`. -/
def startSprint := moveSprint library "active"

/-- `_complete_sprint`. -/
def completeSprint := moveSprint library "closed"

/-- The first transition that leads to the status or has its name. -/
def matchTransition (target : String) : List JiraTransition → Decoded JiraTransition
  | [] => .error (.provider ("no Jira transition reaches " ++ target))
  | item :: rest =>
    match item.toName with
    | .error error => .error (.python error)
    | .ok toName =>
      if toName = some target ∨ item.name = some target then .ok item
      else matchTransition target rest

/-- `_transition_issue`. -/
def transitionIssue (mappings : MappingReader) (intent : JiraIntent) (payload : JsonObject) :
    Delivery (List JiraResourceMapping) := do
  let issueUuid ← lift (uuidField library payload "issue_id" none)
  let mapping ← lift (requiredMapping library mappings intent "ISSUE" issueUuid)
  match mapping.jiraKey with
  | none => throw (.provider "issue mapping has no Jira key")
  | some issueKey =>
    let target ← lift (stringField payload "status")
    let status ← JiraClient.getIssue issueKey
    let current ← lift (Except.mapError AdapterError.python status)
    if current = some target then
      return []
    else
      let transitions ← JiraClient.getIssueTransitions issueKey
      let item ← lift (matchTransition target transitions)
      match item.id with
      | none => throw (.python .keyError)
      | some transitionId =>
        let _ ← JiraClient.transitionIssue issueKey transitionId
        return []

/-! ### Deliveries -/

/-- `_payload`. -/
def payloadOf (intent : JiraIntent) : Decoded JsonObject :=
  match intent.document with
  | none => .error (.python .jsonDecodeError)
  | some (.object payload) => .ok payload
  | some _ => .error (.provider "Jira intent payload must be an object")

/-- The handlers of `_deliver`. -/
def handlers (mappings : MappingReader) :
    List (String × (JiraIntent → JsonObject → Delivery (List JiraResourceMapping))) :=
  [ ("CREATE_PROJECT", createProject library),
    ("CREATE_BOARD", createBoard library),
    ("CREATE_ISSUE", createIssue library),
    ("UPSERT_ISSUE", createIssue library),
    ("CREATE_SPRINT", createSprint library mappings),
    ("SCOPE_SPRINT", scopeSprint library mappings),
    ("START_SPRINT", startSprint library mappings),
    ("COMPLETE_SPRINT", completeSprint library mappings),
    ("TRANSITION_ISSUE", transitionIssue library mappings) ]

/-- `_deliver`. -/
def deliverMappings (mappings : MappingReader) (intent : JiraIntent) :
    Delivery (List JiraResourceMapping) := do
  let payload ← lift (payloadOf intent)
  match (handlers library mappings).lookup intent.operationType with
  | none => throw (.provider ("unsupported Jira intent operation: " ++ intent.operationType))
  | some handler => handler intent payload

/-- The outcome of `deliver`, at the time `now`. -/
def adapterOutcome (intent : JiraIntent) (now : ℤ) :
    Except AdapterError (List JiraResourceMapping) → AdapterOutcome
  | .ok mappings => .delivered { intentId := intent.id, mappings, deliveredAt := now }
  | .error (.rateLimit retryAfter seconds) =>
    .rateLimited retryAfter ("Jira rate limited delivery for " ++ seconds ++ " seconds")
  | .error (.api message) => .providerError message
  | .error (.provider message) => .providerError message
  | .error (.python error) => .raised error

/-- `deliver`: its outcome and the state that it leaves Jira in. -/
def deliver {σ : Type} (jira : JiraService σ) (mappings : MappingReader) (intent : JiraIntent)
    (now : ℤ) (s : σ) : AdapterOutcome × σ :=
  let result := run jira (deliverMappings library mappings intent) s
  (adapterOutcome intent now result.1, result.2)

end JiraSimulator
