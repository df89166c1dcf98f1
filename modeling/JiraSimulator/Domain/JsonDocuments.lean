import JiraSimulator.Domain.CanonicalJson
import JiraSimulator.Domain.SemanticPaths
import JiraSimulator.Library.JsonReader

/-!
# Drafts with JSON payloads

A draft of the three ledgers keeps its payload as the text of `canonical_json` with its digest.  The
payload is copied through `json.loads` when the draft is built, and read again whenever a draft or a
stored row is checked.
-/

namespace JiraSimulator.Document

open Library.DecimalText Library.JsonText SemanticPath

/-- The most digits of an integer that Python converts from a text. -/
def maxIntegerDigits : ℕ := 4300

/-! ### Reading and writing -/

section loads

variable (float : List Char → Option JsonFloat)

/-- The numbers of `json.loads`, with `float` for the doubles. -/
def pythonReader : Reader where
  float := float
  maxDigits := maxIntegerDigits

/-- `json.loads`. -/
def jsonLoads (text : String) : Option JsonValue :=
  readText (pythonReader float) text.toList

/-- What `_validated_json` returns. -/
structure ValidatedJson where
  payload : JsonValue
  encoded : String
  digest : Sha256

/-- `_validated_json`. -/
def validatedJson (value : JsonValue) : Result ValidatedJson :=
  let encoded := canonicalJson value
  match jsonLoads float encoded with
  | some copied => .ok { payload := copied, encoded, digest := canonicalSha256 copied }
  | none => .error (.valueError "payload must be valid JSON")

/-- `_canonical_document`. -/
def canonicalDocument (encoded : String) : Result JsonValue :=
  match jsonLoads float encoded with
  | some document => do
    require (canonicalJson document = encoded)
      "canonical_payload must use canonical JSON encoding"
    return document
  | none => .error (.valueError "canonical_payload must contain valid JSON")

end loads

/-- `_non_empty`. -/
def requireNonEmpty (value fieldName : String) : Result Unit :=
  require (isNonEmptyText value) (fieldName ++ " must be a non-empty string")

/-- `_non_negative`. -/
def requireNonNegative (value : ℤ) (fieldName : String) : Result Unit :=
  require (0 ≤ value) (fieldName ++ " must be a non-negative integer")

/-! ### Envelopes and details -/

structure DraftEnvelope where
  semanticKey : String
  schemaVersion : String
  occurredAt : ℤ
  payload : JsonValue
  suppliedId : Option UUID := none
  suppliedPayloadSha256 : Option Sha256 := none

/-- `DraftEnvelope.__post_init__`. -/
def DraftEnvelope.create (float : List Char → Option JsonFloat) (envelope : DraftEnvelope) :
    Result DraftEnvelope := do
  requireNonEmpty envelope.semanticKey "semantic key"
  requireNonEmpty envelope.schemaVersion "schema version"
  let validated ← validatedJson float envelope.payload
  return { envelope with payload := validated.payload }

/-- `ActivityDetails`, `GroundTruthDetails` and `ProjectionDetails`. -/
inductive DraftDetails where
  | activity (eventType aggregateType : String) (aggregateId : UUID) (aggregateVersion : ℤ)
  | groundTruth (recordType provenanceType : String)
  | projection (targetKind operationType : String) (aggregateId : UUID) (aggregateVersion : ℤ)
    (status : String)

def DraftDetails.ledger : DraftDetails → Ledger
  | .activity .. => .activity
  | .groundTruth .. => .groundTruth
  | .projection .. => .projection

/-- The `__post_init__` of the details. -/
def DraftDetails.validate : DraftDetails → Result Unit
  | .activity eventType aggregateType _ aggregateVersion => do
    requireNonEmpty eventType "event type"
    requireNonEmpty aggregateType "aggregate type"
    requireNonNegative aggregateVersion "aggregate_version"
  | .groundTruth recordType provenanceType => do
    requireNonEmpty recordType "record type"
    requireNonEmpty provenanceType "provenance type"
  | .projection targetKind operationType _ aggregateVersion status => do
    requireNonEmpty targetKind "target kind"
    requireNonEmpty operationType "operation type"
    requireNonNegative aggregateVersion "aggregate_version"
    require (status = "PENDING") "projection status must be PENDING"

/-! ### Drafts -/

/-- A draft of one of the ledgers, as its columns hold it. -/
structure LedgerDraft where
  id : UUID
  semanticKey : String
  schemaVersion : String
  occurredAt : ℤ
  canonicalPayload : String
  payloadSha256 : Sha256
  details : DraftDetails

section drafts

variable (uuid5 : String → UUID) (float : List Char → Option JsonFloat)

/-- `_draft_identity`, with the fields that the draft takes from the envelope. -/
def draftOf (envelope : DraftEnvelope) (details : DraftDetails) : Result LedgerDraft := do
  let id ← draftIdentity uuid5 details.ledger envelope.semanticKey
  let validated ← validatedJson float envelope.payload
  require (∀ supplied ∈ envelope.suppliedId, supplied = id)
    "supplied identifier does not match semantic key"
  require (∀ supplied ∈ envelope.suppliedPayloadSha256, supplied = validated.digest)
    "supplied payload hash does not match canonical payload"
  return {
    id, semanticKey := envelope.semanticKey, schemaVersion := envelope.schemaVersion
    occurredAt := envelope.occurredAt, canonicalPayload := validated.encoded
    payloadSha256 := validated.digest, details }

/-- The `__post_init__` of a draft, which also runs on a row that is loaded. -/
def LedgerDraft.validate (draft : LedgerDraft) : Result Unit := do
  requireNonEmpty draft.semanticKey "semantic key"
  requireNonEmpty draft.schemaVersion "schema version"
  let document ← canonicalDocument float draft.canonicalPayload
  require (draft.payloadSha256 = canonicalSha256 document)
    "payload hash does not match canonical payload"
  let identifier ← draftIdentity uuid5 draft.details.ledger draft.semanticKey
  require (draft.id = identifier) "identifier does not match semantic key"
  draft.details.validate

/-- The `create` of a draft. -/
def LedgerDraft.create (envelope : DraftEnvelope) (details : DraftDetails) :
    Result LedgerDraft := do
  let envelope ← envelope.create float
  details.validate
  let draft ← draftOf uuid5 float envelope details
  draft.validate uuid5 float
  return draft

end drafts

end JiraSimulator.Document
