import JiraSimulator.Domain.LiveSlice

/-!
# Contracts of the Jira delivery

Committed projection intents are delivered to Jira one by one.  The identifier of an intent is a
function of its semantic key, which stands for it here.
-/

namespace JiraSimulator

/-- A committed projection intent. -/
structure ProjectionIntent extends ProjectionIntentDraft where
  appendSequence : ℕ
  teamId : Uuid
  deriving DecidableEq, Repr

/-- The identifier of an intent. -/
abbrev IntentId := SemanticKey

def ProjectionIntent.id (intent : ProjectionIntent) : IntentId :=
  intent.semanticKey

structure JiraResourceMapping where
  teamId : Uuid
  internalKind : String
  internalId : Uuid
  jiraId : String
  jiraKey : Option String
  deriving DecidableEq, Repr

/-- The primary key of a mapping. -/
def JiraResourceMapping.identity (mapping : JiraResourceMapping) : Uuid × String × Uuid :=
  (mapping.teamId, mapping.internalKind, mapping.internalId)

def JiraResourceMapping.validate (mapping : JiraResourceMapping) : Result Unit := do
  require (isNonEmptyText mapping.internalKind) "internal_kind must be a non-empty string"
  require (isNonEmptyText mapping.jiraId) "jira_id must be a non-empty string"
  require (∀ key, mapping.jiraKey = some key → isNonEmptyText key)
    "jira_key must be null or a non-empty string"

structure PendingJiraIntent where
  intent : ProjectionIntent
  dependencyKeys : List SemanticKey
  attempts : ℕ
  deriving DecidableEq, Repr

structure JiraDeliverySuccess where
  intentId : IntentId
  mappings : List JiraResourceMapping
  deliveredAt : ℤ
  deriving DecidableEq, Repr

structure JiraDeliveryFailure where
  intentId : IntentId
  retryAt : ℤ
  error : String
  failedAt : ℤ
  deriving DecidableEq, Repr

def JiraDeliveryFailure.validate (failure : JiraDeliveryFailure) : Result Unit :=
  require (isNonEmptyText failure.error) "error must be a non-empty string"

end JiraSimulator
