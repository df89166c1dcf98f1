import JiraSimulator.Domain.JiraDelivery
import JiraSimulator.Library.Outbox
import JiraSimulator.Persistence.UnitOfWork

/-!
# The store of the Jira delivery

The rows of the projection intents of all teams with the receipts of their delivery and the Jira
identities of the delivered resources.  Every operation is one transaction: it returns the rows
after it, or raises and leaves them as they were.
-/

namespace JiraSimulator

open Library

inductive ReceiptState where
  | RETRYABLE
  | DELIVERED
  deriving DecidableEq, Repr

structure JiraDeliveryReceipt where
  intentId : IntentId
  state : ReceiptState
  attempts : ℕ
  nextAttemptAt : Option ℤ
  lastAttemptAt : ℤ
  deliveredAt : Option ℤ
  lastError : Option String
  deriving DecidableEq, Repr

/-- The rows that the delivery reads and writes; `lastSequence` is the last append sequence that was
given out. -/
structure DeliveryRows where
  intents : List ProjectionIntent := []
  lastSequence : ℕ := 0
  receipts : List JiraDeliveryReceipt := []
  mappings : List JiraResourceMapping := []

namespace DeliveryRows

variable (rows : DeliveryRows)

/-! ### Appends -/

/-- `_resolve_projection`: a draft whose key is new is appended, and one whose key is known must be
the same draft of the same team. -/
def appendIntent (teamId : Uuid) (rows : DeliveryRows) (draft : ProjectionIntentDraft) :
    Result DeliveryRows :=
  match Keyed.lookup (·.semanticKey) rows.intents draft.semanticKey with
  | some intent =>
    if intent.teamId = teamId ∧ intent.toProjectionIntentDraft = draft then .ok rows
    else .error .semanticDeduplicationConflict
  | none =>
    .ok { rows with
      intents := rows.intents ++ [{ draft with appendSequence := rows.lastSequence + 1, teamId }]
      lastSequence := rows.lastSequence + 1 }

/-- The projection intents of one commit of a team. -/
def appendIntents (teamId : Uuid) (drafts : List ProjectionIntentDraft) : Result DeliveryRows :=
  drafts.foldlM (appendIntent teamId) rows

/-! ### Reading -/

def receiptOf (id : IntentId) : Option JiraDeliveryReceipt :=
  Keyed.lookup (·.intentId) rows.receipts id

/-- Is the intent still to be delivered? -/
def isOutstanding (receipt : Option JiraDeliveryReceipt) : Bool :=
  match receipt with
  | none => true
  | some receipt => receipt.state ≠ .DELIVERED

/-- The intents without a `DELIVERED` receipt, in append order. -/
def outstanding : List (ProjectionIntent × Option JiraDeliveryReceipt) :=
  Ordering.sortOn (fun row => [(row.1.appendSequence : ℤ)])
    ((rows.intents.map fun intent => (intent, rows.receiptOf intent.id)).filter fun row =>
      isOutstanding row.2)

/-- `_first_outstanding_by_team`. -/
def firstOutstandingByTeam : List (ProjectionIntent × Option JiraDeliveryReceipt) :=
  Outbox.firsts (fun row => row.1.teamId) rows.outstanding

/-- `_due`. -/
def due (receipt : Option JiraDeliveryReceipt) (asOf : ℤ) : Bool :=
  match receipt with
  | none => true
  | some receipt =>
    receipt.state = .RETRYABLE &&
      match receipt.nextAttemptAt with
      | none => false
      | some instant => instant ≤ asOf

/-- The semantic keys of the delivered intents. -/
def deliveredKeys : List SemanticKey :=
  (rows.intents.filter fun intent => rows.receipts.any fun receipt =>
    receipt.intentId = intent.id && receipt.state = .DELIVERED).map (·.semanticKey)

/-- `_dependencies_delivered`. -/
def dependenciesDelivered (intent : ProjectionIntent) : Bool :=
  intent.dependsOn.all fun key => key ∈ rows.deliveredKeys

/-- `_pending_intent`. -/
def pendingIntent (row : ProjectionIntent × Option JiraDeliveryReceipt) : PendingJiraIntent where
  intent := row.1
  dependencyKeys := row.1.dependsOn
  attempts := match row.2 with
    | none => 0
    | some receipt => receipt.attempts

/-- `MAX_PENDING_LIMIT`. -/
def maxPendingLimit : ℤ := 50

/-- The heads of the teams that can be delivered now. -/
def ready (asOf : ℤ) : List (ProjectionIntent × Option JiraDeliveryReceipt) :=
  rows.firstOutstandingByTeam.filter fun row =>
    due row.2 asOf && rows.dependenciesDelivered row.1

def pending (asOf limit : ℤ) : Result (List PendingJiraIntent) := do
  require (1 ≤ limit ∧ limit ≤ maxPendingLimit) "limit must be between 1 and 50"
  return ((rows.ready asOf).take limit.toNat).map pendingIntent

/-! ### Writing -/

/-- `_require_intent`. -/
def requireIntent (id : IntentId) : Result Unit :=
  if id ∈ rows.intents.map (·.id) then .ok ()
  else .error (.lookupError "projection intent not found")

/-- The unique constraints of the mappings on the identity and the key in Jira. -/
def mappingConflicts (mapping other : JiraResourceMapping) : Bool :=
  other.teamId = mapping.teamId && other.internalKind = mapping.internalKind &&
    (other.jiraId = mapping.jiraId ||
      (mapping.jiraKey.isSome && other.jiraKey = mapping.jiraKey))

/-- `_ensure_mapping`. -/
def ensureMapping (mappings : List JiraResourceMapping) (value : JiraResourceMapping) :
    Result (List JiraResourceMapping) :=
  match Keyed.lookup (·.identity) mappings value.identity with
  | none =>
    if mappings.any (mappingConflicts value) then
      .error (.integrityError "uq_v2_jira_mappings_provider")
    else .ok (mappings ++ [value])
  | some existing =>
    if existing.jiraId = value.jiraId ∧ existing.jiraKey = value.jiraKey then .ok mappings
    else .error (.valueError "resource mapping conflicts with its persisted Jira identity")

/-- `_delivered_receipt`. -/
def deliveredReceipt (result : JiraDeliverySuccess) : JiraDeliveryReceipt where
  intentId := result.intentId
  state := .DELIVERED
  attempts := 1
  nextAttemptAt := none
  lastAttemptAt := result.deliveredAt
  deliveredAt := some result.deliveredAt
  lastError := none

/-- `_retryable_receipt`. -/
def retryableReceipt (result : JiraDeliveryFailure) : JiraDeliveryReceipt where
  intentId := result.intentId
  state := .RETRYABLE
  attempts := 1
  nextAttemptAt := some result.retryAt
  lastAttemptAt := result.failedAt
  deliveredAt := none
  lastError := some result.error

def recordSuccess (result : JiraDeliverySuccess) : Result DeliveryRows := do
  rows.requireIntent result.intentId
  let mappings ← result.mappings.foldlM ensureMapping rows.mappings
  match rows.receiptOf result.intentId with
  | none => return { rows with mappings, receipts := rows.receipts ++ [deliveredReceipt result] }
  | some receipt =>
    if receipt.state ≠ .DELIVERED then
      return { rows with
        mappings
        receipts := Keyed.assign (·.intentId) rows.receipts { receipt with
          state := .DELIVERED
          attempts := receipt.attempts + 1
          nextAttemptAt := none
          lastAttemptAt := result.deliveredAt
          deliveredAt := some result.deliveredAt
          lastError := none } }
    else
      return { rows with mappings }

def recordFailure (result : JiraDeliveryFailure) : Result DeliveryRows := do
  rows.requireIntent result.intentId
  match rows.receiptOf result.intentId with
  | none => return { rows with receipts := rows.receipts ++ [retryableReceipt result] }
  | some receipt =>
    if receipt.state = .DELIVERED then return rows
    else
      return { rows with
        receipts := Keyed.assign (·.intentId) rows.receipts { receipt with
          attempts := receipt.attempts + 1
          nextAttemptAt := some result.retryAt
          lastAttemptAt := result.failedAt
          lastError := some result.error } }

end DeliveryRows

end JiraSimulator
