import JiraSimulator.Domain.CanonicalJson
import JiraSimulator.Library.PathText

/-!
# The texts behind identifiers and draws

An identifier is the UUIDv5 of a path in one namespace, and a draw the HMAC of a canonical message.
This module has the paths and the messages as texts, over the 128-bit identifiers that stand in
them; `uuid5` is the function from a path to its identifier.
-/

namespace JiraSimulator.SemanticPath

open Library.DecimalText Library.JsonText Library.PathText

/-! ### Values in a path -/

/-- An identifier. -/
structure UUID where
  value : ℕ
  isLt : value < 2 ^ 128
  deriving DecidableEq

/-- `str(id)`: the hexadecimal digits in five groups. -/
def UUID.text (id : UUID) : List Char :=
  let hex := fixedDigits 16 32 id.value
  hex.take 8 ++ '-' :: ((hex.drop 8).take 4 ++ '-' :: ((hex.drop 12).take 4 ++
    '-' :: ((hex.drop 16).take 4 ++ '-' :: hex.drop 20)))

/-- A `date`. -/
structure Date where
  year : ℕ
  month : ℕ
  day : ℕ
  year_le : year ≤ 9999
  month_le : month ≤ 12
  day_le : day ≤ 31
  deriving DecidableEq

/-- `str(date)`. -/
def Date.text (date : Date) : List Char :=
  fixedDigits 10 4 date.year ++ '-' ::
    (fixedDigits 10 2 date.month ++ '-' :: fixedDigits 10 2 date.day)

/-- `creation_kind.value`. -/
def creationKindValue : CreationKind → String
  | .INITIAL_BACKLOG => "INITIAL_BACKLOG"
  | .SCRUM_REPLENISHMENT => "SCRUM_REPLENISHMENT"
  | .KANBAN_ARRIVAL => "KANBAN_ARRIVAL"
  | .AGENT_CREATED => "AGENT_CREATED"
  | .JIRA_IMPORTED => "JIRA_IMPORTED"

/-- `kind.value` of a factor. -/
def factorKindValue : FactorKind → String
  | .DESCRIPTION_QUALITY => "DESCRIPTION_QUALITY"
  | .LATENT_COMPLEXITY => "LATENT_COMPLEXITY"

/-- `decision_type.value`. -/
def decisionTypeValue : DecisionType → String
  | .BACKLOG_ISSUE_TYPE => "BACKLOG_ISSUE_TYPE"
  | .BACKLOG_STORY_POINTS => "BACKLOG_STORY_POINTS"
  | .BACKLOG_PRIORITY => "BACKLOG_PRIORITY"
  | .ITEM_DESCRIPTION_QUALITY => "ITEM_DESCRIPTION_QUALITY"
  | .ITEM_LATENT_COMPLEXITY => "ITEM_LATENT_COMPLEXITY"
  | .STATUS_DWELL => "STATUS_DWELL"
  | .STATUS_TOUCH => "STATUS_TOUCH"
  | .SCRUM_CAPACITY_TARGET => "SCRUM_CAPACITY_TARGET"
  | .RISK_EXTERNAL_DEPENDENCY_OUTCOME => "RISK_EXTERNAL_DEPENDENCY_OUTCOME"
  | .RISK_EXTERNAL_DEPENDENCY_DURATION => "RISK_EXTERNAL_DEPENDENCY_DURATION"
  | .RISK_CANCELLATION_OUTCOME => "RISK_CANCELLATION_OUTCOME"
  | .RISK_REVIEW_REJECTION_OUTCOME => "RISK_REVIEW_REJECTION_OUTCOME"
  | .RISK_REWORK_DURATION => "RISK_REWORK_DURATION"
  | .RISK_MEMBER_UNAVAILABLE_OUTCOME => "RISK_MEMBER_UNAVAILABLE_OUTCOME"
  | .RISK_MEMBER_UNAVAILABLE_DURATION => "RISK_MEMBER_UNAVAILABLE_DURATION"
  | .FORCED_REWORK_DURATION => "FORCED_REWORK_DURATION"
  | .KANBAN_ARRIVAL_GAP => "KANBAN_ARRIVAL_GAP"
  | .KANBAN_CLASS_OF_SERVICE => "KANBAN_CLASS_OF_SERVICE"

/-- The three ledgers, with the head of their paths. -/
inductive Ledger where
  | activity
  | groundTruth
  | projection
  deriving DecidableEq

def Ledger.head : Ledger → String
  | .activity => "activity"
  | .groundTruth => "ground-truth"
  | .projection => "projection"

/-! ### The helpers -/

section helpers

variable (uuid5 : String → UUID)

/-- `semantic_uuid` of the segments of an f-string. -/
def semanticUuid (segments : List (List Char)) : UUID :=
  uuid5 (String.ofList (path segments))

/-- `_require_non_negative_integer`. -/
def requireNonNegativeInteger (value : ℤ) (label : String) : Result Unit := do
  require (0 ≤ value) (label ++ " must be non-negative")
  require (value ≤ maxSafeInteger) (label ++ " must not exceed 2^53 - 1")

/-- `_ordinal_uuid`. -/
def ordinalUuid (head : String) (parent : UUID) (ordinal : ℤ) : Result UUID := do
  requireNonNegativeInteger ordinal "ordinal"
  return semanticUuid uuid5 [head.toList, parent.text, pythonInteger ordinal]

/-- `LOWER_HEX_64_PATTERN.fullmatch`. -/
def isLowerHex64 (text : String) : Bool :=
  text.toList.length = 64 && text.toList.all fun c =>
    ('0' ≤ c && c ≤ '9') || ('a' ≤ c && c ≤ 'f')

/-- `team_rng_id`. -/
def teamRngId (blueprintSha256 : String) : Result UUID := do
  require (isLowerHex64 blueprintSha256)
    "blueprint_sha256 must be 64 lower-case hexadecimal characters"
  return semanticUuid uuid5 ["team".toList, blueprintSha256.toList]

def runRngId (team : UUID) (ordinal : ℤ) : Result UUID := ordinalUuid uuid5 "run" team ordinal

def memberRngId (team : UUID) (index : ℤ) : Result UUID := ordinalUuid uuid5 "member" team index

def sprintRngId (team : UUID) (ordinal : ℤ) : Result UUID := ordinalUuid uuid5 "sprint" team ordinal

def visitRngId (item : UUID) (ordinal : ℤ) : Result UUID := ordinalUuid uuid5 "visit" item ordinal

def dependencyRngId (visit : UUID) (ordinal : ℤ) : Result UUID :=
  ordinalUuid uuid5 "dependency" visit ordinal

def reworkRngId (item : UUID) (ordinal : ℤ) : Result UUID := ordinalUuid uuid5 "rework" item ordinal

/-- `item_rng_id`. -/
def itemRngId (team : UUID) (kind : CreationKind) (sequence : ℤ) : Result UUID := do
  requireNonNegativeInteger sequence "sequence"
  return semanticUuid uuid5
    ["item".toList, team.text, (creationKindValue kind).toList, pythonInteger sequence]

/-- The identifier of the first blueprint of a team, in `create_team.py`. -/
def blueprintId (team : UUID) : UUID :=
  semanticUuid uuid5 ["blueprint".toList, team.text, ['0']]

/-- The identifier of the runtime of a team. -/
def runtimeId (team : UUID) : UUID :=
  semanticUuid uuid5 ["runtime".toList, team.text]

/-- The identifier that `WorkItemFactor.validate` expects. -/
def factorId (item : UUID) (kind : FactorKind) : UUID :=
  semanticUuid uuid5 ["factor".toList, item.text, (factorKindValue kind).toList]

/-- The identifier that `SprintScopeEntry.validate` expects. -/
def sprintScopeId (sprint item : UUID) : UUID :=
  semanticUuid uuid5 ["sprint-scope".toList, sprint.text, item.text]

/-- `NaturalDecisionEvaluation._expected_id`. -/
def evaluationId (team run : UUID) (decision : DecisionType) (entity : UUID) (date : Date) : UUID :=
  semanticUuid uuid5 ["evaluation".toList, team.text, run.text, (decisionTypeValue decision).toList,
    entity.text, date.text]

/-- The identifier in `_unavailability_overlay`. -/
def riskOverlayId (team run member : UUID) (date : Date) : UUID :=
  semanticUuid uuid5 ["risk-overlay".toList, team.text, run.text, member.text, date.text]

/-- The identifier of the commit that provisions Jira. -/
def jiraProvisioningId (team run : UUID) : UUID :=
  semanticUuid uuid5 ["jira-provisioning".toList, team.text, run.text]

/-- `_draft_identity`, with the check of the envelope on the key. -/
def draftIdentity (ledger : Ledger) (semanticKey : String) : Result UUID := do
  require (isNonEmptyText semanticKey) "semantic key must be a non-empty string"
  return semanticUuid uuid5 [ledger.head.toList, semanticKey.toList]

end helpers

/-! ### Coordinates -/

/-- What an identifier is derived from. -/
inductive Coordinate where
  | team (blueprintSha256 : String)
  | run (team : UUID) (ordinal : ℤ)
  | member (team : UUID) (index : ℤ)
  | sprint (team : UUID) (ordinal : ℤ)
  | visit (item : UUID) (ordinal : ℤ)
  | dependency (visit : UUID) (ordinal : ℤ)
  | rework (item : UUID) (ordinal : ℤ)
  | item (team : UUID) (kind : CreationKind) (sequence : ℤ)
  | blueprint (team : UUID)
  | runtime (team : UUID)
  | factor (item : UUID) (kind : FactorKind)
  | sprintScope (sprint item : UUID)
  | evaluation (team run : UUID) (decision : DecisionType) (entity : UUID) (date : Date)
  | riskOverlay (team run member : UUID) (date : Date)
  | jiraProvisioning (team run : UUID)
  | draft (ledger : Ledger) (semanticKey : String)
  deriving DecidableEq

/-- The identifier of a coordinate, by the helper for it. -/
def Coordinate.identifier (uuid5 : String → UUID) : Coordinate → Result UUID
  | .team blueprintSha256 => teamRngId uuid5 blueprintSha256
  | .run teamId ordinal => runRngId uuid5 teamId ordinal
  | .member teamId index => memberRngId uuid5 teamId index
  | .sprint teamId ordinal => sprintRngId uuid5 teamId ordinal
  | .visit itemId ordinal => visitRngId uuid5 itemId ordinal
  | .dependency visitId ordinal => dependencyRngId uuid5 visitId ordinal
  | .rework itemId ordinal => reworkRngId uuid5 itemId ordinal
  | .item teamId kind sequence => itemRngId uuid5 teamId kind sequence
  | .blueprint teamId => .ok (blueprintId uuid5 teamId)
  | .runtime teamId => .ok (runtimeId uuid5 teamId)
  | .factor itemId kind => .ok (factorId uuid5 itemId kind)
  | .sprintScope sprintId itemId => .ok (sprintScopeId uuid5 sprintId itemId)
  | .evaluation teamId runId decision entityId date =>
    .ok (evaluationId uuid5 teamId runId decision entityId date)
  | .riskOverlay teamId runId memberId date =>
    .ok (riskOverlayId uuid5 teamId runId memberId date)
  | .jiraProvisioning teamId runId => .ok (jiraProvisioningId uuid5 teamId runId)
  | .draft ledger semanticKey => draftIdentity uuid5 ledger semanticKey

/-! ### Draws -/

/-- What a draw is derived from, besides the seed. -/
structure DrawCoordinate where
  teamId : UUID
  runId : UUID
  entityId : UUID
  decisionType : DecisionType
  occurrence : ℤ
  drawIndex : ℤ
  deriving DecidableEq

/-- `_canonical_message`, with the checks of `DecisionOccurrence` and `draw`. -/
def canonicalMessage (draw : DrawCoordinate) : Result String := do
  requireNonNegativeInteger draw.occurrence "occurrence"
  require (draw.occurrence = 0 ∨ draw.decisionType ∈ nonzeroOccurrenceDecisions)
    "occurrence must be zero for this decision type"
  requireNonNegativeInteger draw.drawIndex "draw_index"
  return canonicalJson (.object [
    ("algorithm", .string "HMAC_SHA256_U53_V1"),
    ("team_id", .string (String.ofList draw.teamId.text)),
    ("run_id", .string (String.ofList draw.runId.text)),
    ("entity_id", .string (String.ofList draw.entityId.text)),
    ("decision_type", .string (decisionTypeValue draw.decisionType)),
    ("occurrence", .int draw.occurrence),
    ("draw_index", .int draw.drawIndex)])

end JiraSimulator.SemanticPath
