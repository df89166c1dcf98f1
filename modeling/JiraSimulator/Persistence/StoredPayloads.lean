import JiraSimulator.Persistence.JiraDeliveryStore

/-!
# Reading the pending intents from their stored payloads

The store keeps the payload of an intent as a JSON text, and `pending` reads the dependencies of an
intent from it.  Any JSON document can be committed as a payload, so the `depends_on` of an intent
may be malformed; reading it then raises.
-/

namespace JiraSimulator

open Library.Outcome

/-- An element of a `depends_on` list; a string is the semantic key with that text. -/
inductive DependencyValue where
  | string (key : SemanticKey)
  | notAString
  deriving DecidableEq, Repr

inductive DependsOnValue where
  | list (values : List DependencyValue)
  | notAList
  deriving DecidableEq, Repr

/-- What `json.loads` makes of a stored `canonical_payload`. -/
inductive StoredPayload where
  | invalidJson
  | notAnObject
  | object (dependsOn : Option DependsOnValue)
  deriving DecidableEq, Repr

def DependencyValue.key? : DependencyValue → Option SemanticKey
  | .string key => some key
  | .notAString => none

/-- `_dependency_keys`. -/
def dependencyKeys : StoredPayload → Result (List SemanticKey)
  | .invalidJson => .error .jsonDecodeError
  -- `document.get`
  | .notAnObject => .error .attributeError
  | .object none => .ok []
  | .object (some .notAList) =>
    .error (.valueError "depends_on must be a list of semantic-key strings")
  | .object (some (.list values)) =>
    match values.mapM DependencyValue.key? with
    | some keys => .ok keys
    | none => .error (.valueError "depends_on must be a list of semantic-key strings")

/-- The stored payloads of the intents; one that can be read names the dependencies of its intent.
-/
structure StoredPayloads where
  payload : ProjectionIntent → StoredPayload
  names : ∀ intent keys, dependencyKeys (payload intent) = .ok keys → keys = intent.dependsOn

/-- The payload that the code writes for an intent. -/
def ProjectionIntent.storedPayload (intent : ProjectionIntent) : StoredPayload :=
  .object (some (.list (intent.dependsOn.map DependencyValue.string)))

theorem dependencyKeys_storedPayload (intent : ProjectionIntent) :
    dependencyKeys intent.storedPayload = .ok intent.dependsOn := by
  have hkeys : ∀ keys : List SemanticKey,
      (keys.map DependencyValue.string).mapM DependencyValue.key? = some keys := by
    intro keys
    induction keys with
    | nil => rfl
    | cons key keys ih =>
      simp [ih, DependencyValue.key?]
  simp only [dependencyKeys, ProjectionIntent.storedPayload, hkeys]

/-- The payloads as the code writes them, other than those of the given intents. -/
def StoredPayloads.except (malformed : List IntentId) : StoredPayloads where
  payload intent := if intent.id ∈ malformed then .object (some .notAList) else intent.storedPayload
  names intent keys hkeys := by
    by_cases hid : intent.id ∈ malformed
    · rw [if_pos hid] at hkeys
      cases hkeys
    · rw [if_neg hid, dependencyKeys_storedPayload] at hkeys
      exact (Except.ok.inj hkeys).symm

namespace DeliveryRows

variable (rows : DeliveryRows) (payloads : StoredPayloads)

/-- `_due(receipt, instant) and _dependencies_delivered(session, intent)`. -/
def isReady (asOf : ℤ) (row : ProjectionIntent × Option JiraDeliveryReceipt) : Result Bool :=
  if due row.2 asOf then do
    let dependencies ← dependencyKeys (payloads.payload row.1)
    return dependencies.all fun key => key ∈ rows.deliveredKeys
  else
    .ok false

/-- `_pending_intent`, from the stored payload. -/
def storedPendingIntent (row : ProjectionIntent × Option JiraDeliveryReceipt) :
    Result PendingJiraIntent := do
  let dependencyKeys ← dependencyKeys (payloads.payload row.1)
  return { pendingIntent row with dependencyKeys }

/-- `pending`, from the stored payloads. -/
def storedPending (asOf limit : ℤ) : Result (List PendingJiraIntent) := do
  require (1 ≤ limit ∧ limit ≤ maxPendingLimit) "limit must be between 1 and 50"
  let ready ← select (rows.isReady payloads asOf) rows.firstOutstandingByTeam
  (ready.take limit.toNat).mapM (storedPendingIntent payloads)

/-- The payloads of all due heads can be read. -/
def Readable (asOf : ℤ) : Prop :=
  ∀ row ∈ rows.firstOutstandingByTeam, due row.2 asOf = true →
    ∃ keys, dependencyKeys (payloads.payload row.1) = .ok keys

variable {rows payloads}

theorem isReady_eq_ok {asOf : ℤ} {row : ProjectionIntent × Option JiraDeliveryReceipt} {keep : Bool} :
    rows.isReady payloads asOf row = .ok keep ↔
      (due row.2 asOf = true → ∃ keys, dependencyKeys (payloads.payload row.1) = .ok keys) ∧
        keep = (due row.2 asOf && rows.dependenciesDelivered row.1) := by
  unfold isReady
  by_cases hdue : due row.2 asOf = true
  · rw [if_pos hdue]
    simp only [bind_eq_ok, pure_eq_ok, hdue, true_implies, Bool.true_and]
    constructor
    · rintro ⟨keys, hkeys, rfl⟩
      refine ⟨⟨keys, hkeys⟩, ?_⟩
      rw [payloads.names row.1 keys hkeys, dependenciesDelivered]
    · rintro ⟨⟨keys, hkeys⟩, rfl⟩
      refine ⟨keys, hkeys, ?_⟩
      rw [payloads.names row.1 keys hkeys, dependenciesDelivered]
  · rw [if_neg hdue]
    simp [hdue, eq_comm]

theorem storedPendingIntent_of_readable {row : ProjectionIntent × Option JiraDeliveryReceipt}
    (h : ∃ keys, dependencyKeys (payloads.payload row.1) = .ok keys) :
    storedPendingIntent payloads row = .ok (pendingIntent row) := by
  obtain ⟨keys, hkeys⟩ := h
  have hnames := payloads.names row.1 keys hkeys
  simp only [storedPendingIntent, hkeys, ok_bind, hnames]
  rfl

/-- When all due heads can be read, the stored payloads give the pending intents; otherwise reading
them raises. -/
theorem storedPending_eq_ok {asOf limit : ℤ} {items : List PendingJiraIntent}
    (hlimit : 1 ≤ limit ∧ limit ≤ maxPendingLimit) :
    rows.storedPending payloads asOf limit = .ok items ↔
      rows.Readable payloads asOf ∧ items = ((rows.ready asOf).take limit.toNat).map pendingIntent := by
  have hready : rows.Readable payloads asOf →
      rows.storedPending payloads asOf limit =
        .ok (((rows.ready asOf).take limit.toNat).map pendingIntent) := by
    intro hreadable
    have hselect : select (rows.isReady payloads asOf) rows.firstOutstandingByTeam =
        .ok (rows.ready asOf) :=
      select_eq_filter fun row hrow => isReady_eq_ok.mpr ⟨hreadable row hrow, rfl⟩
    have hrows : ∀ row ∈ (rows.ready asOf).take limit.toNat,
        storedPendingIntent payloads row = .ok (pendingIntent row) := by
      intro row hrow
      have hmem := List.mem_filter.mp (List.mem_of_mem_take hrow)
      rw [Bool.and_eq_true] at hmem
      exact storedPendingIntent_of_readable (hreadable row hmem.1 hmem.2.1)
    rw [storedPending, require, check_of hlimit, ok_bind, hselect, ok_bind, mapM_eq_ok]
    rw [List.forall₂_map_right_iff, List.forall₂_same]
    exact hrows
  constructor
  · intro hok
    have hreadable : rows.Readable payloads asOf := by
      simp only [storedPending, bind_eq_ok] at hok
      obtain ⟨-, -, ready, hselect, -⟩ := hok
      intro row hrow hdue
      obtain ⟨keep, hkeep⟩ := exists_of_select hselect row hrow
      exact (isReady_eq_ok.mp hkeep).1 hdue
    exact ⟨hreadable, Except.ok.inj (hok.symm.trans (hready hreadable))⟩
  · rintro ⟨hreadable, rfl⟩
    exact hready hreadable

/-- The payloads as the code writes them give the pending intents of the typed rows. -/
theorem storedPending_storedPayload {asOf limit : ℤ} :
    rows.storedPending (.except []) asOf limit = rows.pending asOf limit := by
  by_cases hlimit : 1 ≤ limit ∧ limit ≤ maxPendingLimit
  · have hreadable : rows.Readable (.except []) asOf :=
      fun row _ _ => ⟨row.1.dependsOn, dependencyKeys_storedPayload row.1⟩
    rw [(storedPending_eq_ok hlimit).mpr ⟨hreadable, rfl⟩, pending, require, check_of hlimit]
    rfl
  · rw [storedPending, pending, require, check, if_neg hlimit]
    rfl

end DeliveryRows

end JiraSimulator
