import JiraSimulator.Domain.Value
import JiraSimulator.Library.Binary64

/-!
# Semantic identities and decision draws

Every persisted row carries a UUIDv5 of a canonical path in one namespace.  `Uuid` records the path
itself, so two identifiers are equal exactly when their semantic coordinates are; the digest of a
document is recorded by the document in the same way.  `Platform` collects what the code takes from
its environment: the HMAC draws, the time zone data, the integer value of an identifier and the
mathematical functions of the C library.
-/

namespace JiraSimulator

/-- The SHA-256 digest of a canonical document. -/
structure Sha256 where
  document : String
  deriving DecidableEq, Repr

inductive CreationKind where
  | INITIAL_BACKLOG
  | SCRUM_REPLENISHMENT
  | KANBAN_ARRIVAL
  | AGENT_CREATED
  | JIRA_IMPORTED
  deriving DecidableEq, Repr

inductive DecisionType where
  | BACKLOG_ISSUE_TYPE
  | BACKLOG_STORY_POINTS
  | BACKLOG_PRIORITY
  | ITEM_DESCRIPTION_QUALITY
  | ITEM_LATENT_COMPLEXITY
  | STATUS_DWELL
  | STATUS_TOUCH
  | SCRUM_CAPACITY_TARGET
  | RISK_EXTERNAL_DEPENDENCY_OUTCOME
  | RISK_EXTERNAL_DEPENDENCY_DURATION
  | RISK_CANCELLATION_OUTCOME
  | RISK_REVIEW_REJECTION_OUTCOME
  | RISK_REWORK_DURATION
  | RISK_MEMBER_UNAVAILABLE_OUTCOME
  | RISK_MEMBER_UNAVAILABLE_DURATION
  | FORCED_REWORK_DURATION
  | KANBAN_ARRIVAL_GAP
  | KANBAN_CLASS_OF_SERVICE
  deriving DecidableEq, Repr

/-- `NONZERO_OCCURRENCE_DECISIONS`. -/
def nonzeroOccurrenceDecisions : List DecisionType :=
  [.RISK_CANCELLATION_OUTCOME, .RISK_MEMBER_UNAVAILABLE_OUTCOME, .RISK_MEMBER_UNAVAILABLE_DURATION,
    .FORCED_REWORK_DURATION, .KANBAN_ARRIVAL_GAP]

inductive FactorKind where
  | DESCRIPTION_QUALITY
  | LATENT_COMPLEXITY
  deriving DecidableEq, Repr

/-- The identifiers of the simulator, by their semantic path. -/
inductive Uuid where
  | team (sha256 : Sha256)
  | run (parent : Uuid) (ordinal : ℕ)
  | member (team : Uuid) (index : ℕ)
  | sprint (team : Uuid) (ordinal : ℕ)
  | item (team : Uuid) (kind : CreationKind) (sequence : ℕ)
  | visit (item : Uuid) (ordinal : ℕ)
  | factor (item : Uuid) (kind : FactorKind)
  | sprintScope (sprint item : Uuid)
  | evaluation (team run : Uuid) (decision : DecisionType) (entity : Uuid) (businessDate : ℤ)
  | riskOverlay (team run member : Uuid) (day : ℤ)
  | runtime (team : Uuid)
  | blueprint (team : Uuid)
  | scrumTick (team run : Uuid) (version : ℕ) (endsAt : ℤ)
  | sprintLifecycle (team run : Uuid) (version : ℕ) (boundary : ℤ)
  | restartLifecycle (team run : Uuid) (version : ℕ) (boundary : ℤ)
  | restart (team run : Uuid) (version : ℕ) (endsAt : ℤ)
  | jiraProvisioning (team run : Uuid)
  deriving DecidableEq, Repr

/-- `_require_semantic_id`. -/
def requireSemanticId (actual expected : Uuid) (label : String) : Result Unit :=
  require (actual = expected) (label ++ " does not match its semantic coordinates")

/-- `_ordinal_uuid`: the ordinals of an identifier stay in the safe integer range. -/
def ordinalUuid (build : ℕ → Uuid) (ordinal : ℕ) : Result Uuid := do
  require (ordinal ≤ maxSafeInteger) "ordinal must not exceed 2^53 - 1"
  return build ordinal

def memberRngId (team : Uuid) (index : ℕ) : Result Uuid :=
  ordinalUuid (.member team) index

def sprintRngId (team : Uuid) (ordinal : ℕ) : Result Uuid :=
  ordinalUuid (.sprint team) ordinal

def itemRngId (team : Uuid) (kind : CreationKind) (sequence : ℕ) : Result Uuid :=
  ordinalUuid (.item team kind) sequence

def visitRngId (item : Uuid) (ordinal : ℕ) : Result Uuid :=
  ordinalUuid (.visit item) ordinal

theorem ordinalUuid_eq_ok {build : ℕ → Uuid} {ordinal : ℕ} {id : Uuid} :
    ordinalUuid build ordinal = .ok id ↔ ordinal ≤ maxSafeInteger ∧ build ordinal = id := by
  simp [ordinalUuid]

/-! ### Decisions and draws -/

/-- A decision coordinate. -/
structure DecisionOccurrence where
  entityId : Uuid
  decisionType : DecisionType
  occurrence : ℕ
  deriving DecidableEq, Repr

/-- `DecisionOccurrence(entity_id, decision_type, occurrence)` with its validation. -/
def DecisionOccurrence.create (entityId : Uuid) (decisionType : DecisionType) (occurrence : ℕ) :
    Result DecisionOccurrence := do
  requireSafeInteger occurrence "occurrence"
  require (occurrence = 0 ∨ decisionType ∈ nonzeroOccurrenceDecisions)
    "occurrence must be zero for this decision type"
  return { entityId, decisionType, occurrence }

/-- The coordinate of a decision that is made once. -/
def DecisionOccurrence.first (entityId : Uuid) (decisionType : DecisionType) : DecisionOccurrence :=
  { entityId, decisionType, occurrence := 0 }

/-- A stream of draws for one seed and one team run. -/
structure DeterministicRandomStream where
  rootSeed : String
  teamId : Uuid
  runId : Uuid
  deriving DecidableEq, Repr

/-- `DeterministicRandomStream(root_seed, team_id, run_id)` with its validation. -/
def DeterministicRandomStream.create (rootSeed : String) (teamId runId : Uuid) :
    Result DeterministicRandomStream := do
  require (rootSeed ≠ "") "root_seed must not be empty"
  return { rootSeed, teamId, runId }

/-- One authenticated draw.  Its canonical message and its HMAC digest are functions of the stream
and the coordinate, which stand for them here. -/
structure UniformDraw where
  stream : DeterministicRandomStream
  decision : DecisionOccurrence
  drawIndex : ℕ
  u53Integer : ℕ
  deriving DecidableEq, Repr

/-- `u53_integer / 2**53`, which a double holds exactly. -/
def UniformDraw.unitValue (draw : UniformDraw) : ℚ :=
  (draw.u53Integer : ℚ) / 2 ^ 53

/-- A source of draws for decision coordinates. -/
abbrev DrawSource := DecisionOccurrence → UniformDraw

/-- The data of one time zone: the offset of a wall-clock time with its fold, and the wall-clock
time with its fold of an instant. -/
structure TimeZone where
  utcOffset : ℤ → Bool → ℤ
  fromUtc : ℤ → ℤ × Bool

/-- What the code takes from its environment. -/
structure Platform where
  /-- The first eight bytes of the HMAC digest of a draw, as an integer. -/
  hmacFirstWord : DeterministicRandomStream → DecisionOccurrence → ℕ → ℕ
  /-- The time zone of an available IANA name. -/
  timeZone : String → Option TimeZone
  /-- The integer value of an identifier, which orders identifiers and their canonical texts. -/
  uuidInt : Uuid → ℕ
  log : ℚ → ℚ
  /-- `math.exp`, which raises `OverflowError` on large arguments. -/
  exp : ℚ → Option ℚ
  log1p : ℚ → ℚ
  expm1 : ℚ → ℚ
  /-- The built-in `sum` of floats. -/
  floatSum : List ℚ → ℚ
  /-- `float(text)`, which knows infinities and `nan`. -/
  floatOfText : String → Option Library.Binary64.Double

/-- `DeterministicRandomStream.draw`. -/
def DeterministicRandomStream.draw (p : Platform) (stream : DeterministicRandomStream)
    (decision : DecisionOccurrence) : UniformDraw :=
  { stream, decision, drawIndex := 0,
    u53Integer := p.hmacFirstWord stream decision 0 % 2 ^ 64 / 2 ^ 11 }

end JiraSimulator
