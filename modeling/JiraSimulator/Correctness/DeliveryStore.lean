import JiraSimulator.Application.JiraDelivery
import JiraSimulator.Correctness.Blueprint

/-!
# What the operations of the delivery store keep

The delivered intents of a team stand before all others of the team, and every delivered intent
needs only delivered ones.  Appends, failures and the success of a cleared intent keep this, and no
operation takes back a delivery or changes a mapping.
-/

namespace JiraSimulator

open Library Library.Outcome

/-- Intents are delivered team by team, in append order, after the intents that they depend on. -/
def deliveryDiscipline : Outbox.Discipline ProjectionIntent Uuid SemanticKey where
  group := (·.teamId)
  position := (·.appendSequence)
  key := (·.semanticKey)
  needs := (·.dependsOn)

namespace DeliveryRows

/-- The keys of the receipts that are `DELIVERED`. -/
def delivered (rows : DeliveryRows) : Set SemanticKey :=
  {key | ∃ receipt ∈ rows.receipts, receipt.intentId = key ∧ receipt.state = .DELIVERED}

/-- What holds of the rows after every operation. -/
structure Valid (rows : DeliveryRows) : Prop where
  sequences : rows.intents.Pairwise fun a b => a.appendSequence < b.appendSequence
  bounded : ∀ intent ∈ rows.intents, intent.appendSequence ≤ rows.lastSequence
  keys : (rows.intents.map (·.semanticKey)).Nodup
  receiptKeys : (rows.receipts.map (·.intentId)).Nodup
  references : ∀ receipt ∈ rows.receipts, receipt.intentId ∈ rows.intents.map (·.semanticKey)
  retries : ∀ receipt ∈ rows.receipts, receipt.state = .RETRYABLE →
    receipt.nextAttemptAt.isSome = true
  mappingKeys : (rows.mappings.map (·.identity)).Nodup
  inOrder : deliveryDiscipline.InOrder rows.intents rows.delivered

/-- What no operation takes back. -/
structure Grows (rows rows' : DeliveryRows) : Prop where
  intents : ∃ added, rows'.intents = rows.intents ++ added ∧
    deliveryDiscipline.Behind rows.intents added
  receipts : ∀ receipt ∈ rows.receipts, receipt.state = .DELIVERED → receipt ∈ rows'.receipts
  mappings : rows.mappings ⊆ rows'.mappings

/-- The intent may be delivered. -/
abbrev Cleared (rows : DeliveryRows) (intent : ProjectionIntent) : Prop :=
  deliveryDiscipline.Cleared rows.intents rows.delivered intent

variable {rows rows' : DeliveryRows}

theorem Grows.refl (rows : DeliveryRows) : rows.Grows rows where
  intents := ⟨[], (List.append_nil _).symm, by simp [Outbox.Discipline.Behind]⟩
  receipts _ h _ := h
  mappings := List.Subset.refl _

theorem Grows.delivered (h : rows.Grows rows') : rows.delivered ⊆ rows'.delivered := by
  rintro key ⟨receipt, hreceipt, hid, hstate⟩
  exact ⟨receipt, h.receipts receipt hreceipt hstate, hid, hstate⟩

/-- An intent that was cleared once stays cleared. -/
theorem Grows.cleared (h : rows.Grows rows') {intent : ProjectionIntent}
    (hintent : rows.Cleared intent) : rows'.Cleared intent := by
  obtain ⟨added, hadded, hbehind⟩ := h.intents
  unfold Cleared
  rw [hadded]
  exact Outbox.Cleared.mono hintent hbehind h.delivered

theorem Valid.eq_of_key (h : rows.Valid) : ∀ a ∈ rows.intents, ∀ b ∈ rows.intents,
    a.semanticKey = b.semanticKey → a = b :=
  fun _ ha _ hb hkey => List.inj_on_of_nodup_map h.keys ha hb hkey

/-- A new intent has no receipt. -/
theorem Valid.delivered_mem (h : rows.Valid) {key : SemanticKey} (hkey : key ∈ rows.delivered) :
    key ∈ rows.intents.map (·.semanticKey) := by
  obtain ⟨receipt, hreceipt, rfl, -⟩ := hkey
  exact h.references receipt hreceipt

/-! ### Appends -/

theorem appendIntent_spec {teamId : Uuid} {draft : ProjectionIntentDraft} (h : rows.Valid)
    (hok : appendIntent teamId rows draft = .ok rows') :
    rows'.Valid ∧ rows.Grows rows' ∧ rows'.receipts = rows.receipts := by
  unfold appendIntent at hok
  -- a key that is known leaves the rows as they are
  cases hlookup : Keyed.lookup (·.semanticKey) rows.intents draft.semanticKey with
  | some intent =>
    rw [hlookup] at hok
    simp only at hok
    split_ifs at hok
    cases hok
    exact ⟨h, .refl rows, rfl⟩
  | none =>
    rw [hlookup, Except.ok.injEq] at hok
    subst hok
    have hnew : draft.semanticKey ∉ rows.intents.map (·.semanticKey) :=
      (Keyed.lookup_eq_none _).mp hlookup
    -- the next sequence number is behind every other
    have hbehind : deliveryDiscipline.Behind rows.intents
        [{ draft with appendSequence := rows.lastSequence + 1, teamId }] := by
      intro a ha b hb
      rw [List.mem_singleton] at hb
      subst hb
      exact Nat.lt_succ_of_le (h.bounded a ha)
    refine ⟨?_, ⟨⟨_, rfl, hbehind⟩, fun _ hmem _ => hmem, List.Subset.refl _⟩, rfl⟩
    exact {
      sequences := List.pairwise_append.mpr
        ⟨h.sequences, List.pairwise_singleton _ _, fun a ha b hb => hbehind a ha b hb⟩
      bounded := by
        intro intent hintent
        rcases List.mem_append.mp hintent with hintent | hintent
        · exact Nat.le_succ_of_le (h.bounded intent hintent)
        · rw [List.mem_singleton] at hintent
          subst hintent
          exact le_rfl
      keys := by
        rw [List.map_append, List.map_singleton]
        exact List.Nodup.append h.keys (List.nodup_singleton _)
          (List.disjoint_singleton.mpr hnew)
      receiptKeys := h.receiptKeys
      references := by
        intro receipt hreceipt
        rw [List.map_append]
        exact List.mem_append_left _ (h.references receipt hreceipt)
      retries := h.retries
      mappingKeys := h.mappingKeys
      inOrder := by
        refine Outbox.InOrder.append h.inOrder hbehind ?_
        intro a ha hdone
        rw [List.mem_singleton] at ha
        subst ha
        exact hnew (h.delivered_mem hdone) }

theorem Grows.trans {rows'' : DeliveryRows} (h : rows.Grows rows') (h' : rows'.Grows rows'') :
    rows.Grows rows'' where
  intents := by
    obtain ⟨added, hadded, hbehind⟩ := h.intents
    obtain ⟨added', hadded', hbehind'⟩ := h'.intents
    refine ⟨added ++ added', by rw [hadded', hadded, List.append_assoc], ?_⟩
    intro a ha b hb
    rcases List.mem_append.mp hb with hb | hb
    · exact hbehind a ha b hb
    · exact hbehind' a (hadded ▸ List.mem_append_left _ ha) b hb
  receipts receipt hreceipt hstate := h'.receipts receipt (h.receipts receipt hreceipt hstate) hstate
  mappings := List.Subset.trans h.mappings h'.mappings

theorem appendIntents_spec {teamId : Uuid} {drafts : List ProjectionIntentDraft} (h : rows.Valid)
    (hok : rows.appendIntents teamId drafts = .ok rows') :
    rows'.Valid ∧ rows.Grows rows' ∧ rows'.receipts = rows.receipts := by
  refine foldlM_induction (motive := fun r => r.Valid ∧ rows.Grows r ∧ r.receipts = rows.receipts)
    hok ⟨h, .refl rows, rfl⟩ ?_
  rintro r draft r' - ⟨hvalid, hgrows, hreceipts⟩ hstep
  obtain ⟨hvalid', hgrows', hreceipts'⟩ := appendIntent_spec hvalid hstep
  exact ⟨hvalid', hgrows.trans hgrows', hreceipts'.trans hreceipts⟩

/-! ### Receipts -/

theorem receiptOf_eq_some {id : IntentId} {receipt : JiraDeliveryReceipt}
    (h : rows.receiptOf id = some receipt) : receipt ∈ rows.receipts ∧ receipt.intentId = id :=
  Keyed.mem_of_lookup _ h

theorem receiptOf_eq_none {id : IntentId} (h : rows.receiptOf id = none) :
    id ∉ rows.receipts.map (·.intentId) :=
  (Keyed.lookup_eq_none _).mp h

theorem Valid.receipt_unique (h : rows.Valid) {a b : JiraDeliveryReceipt} (ha : a ∈ rows.receipts)
    (hb : b ∈ rows.receipts) (hid : a.intentId = b.intentId) : a = b :=
  List.inj_on_of_nodup_map h.receiptKeys ha hb hid

theorem Valid.receiptOf_eq (h : rows.Valid) {receipt : JiraDeliveryReceipt}
    (hmem : receipt ∈ rows.receipts) : rows.receiptOf receipt.intentId = some receipt := by
  cases hlookup : rows.receiptOf receipt.intentId with
  | none => exact absurd (List.mem_map_of_mem hmem) (receiptOf_eq_none hlookup)
  | some other =>
    obtain ⟨hother, hid⟩ := receiptOf_eq_some hlookup
    rw [h.receipt_unique hother hmem hid]

/-- An intent is delivered exactly when its receipt says so. -/
theorem Valid.mem_delivered (h : rows.Valid) {id : IntentId} :
    id ∈ rows.delivered ↔ isOutstanding (rows.receiptOf id) = false := by
  constructor
  · rintro ⟨receipt, hreceipt, rfl, hstate⟩
    rw [h.receiptOf_eq hreceipt]
    simp [isOutstanding, hstate]
  · intro hout
    cases hlookup : rows.receiptOf id with
    | none => simp [hlookup, isOutstanding] at hout
    | some receipt =>
      obtain ⟨hmem, hid⟩ := receiptOf_eq_some hlookup
      rw [hlookup] at hout
      exact ⟨receipt, hmem, hid, by simpa [isOutstanding] using hout⟩

/-- The rows with one receipt written and other mappings. -/
def withReceipt (rows : DeliveryRows) (receipt : JiraDeliveryReceipt)
    (mappings : List JiraResourceMapping) : DeliveryRows :=
  { rows with receipts := Keyed.assign (·.intentId) rows.receipts receipt, mappings }

/-- A written receipt that is not `DELIVERED` delivers nothing. -/
theorem delivered_withReceipt_of_retryable (receipt : JiraDeliveryReceipt)
    (hstate : receipt.state ≠ .DELIVERED) (hnot : receipt.intentId ∉ rows.delivered)
    (mappings : List JiraResourceMapping) :
    (rows.withReceipt receipt mappings).delivered = rows.delivered := by
  ext key
  constructor
  · rintro ⟨other, hother, rfl, hdelivered⟩
    rcases (Keyed.mem_assign _).mp hother with rfl | ⟨hmem, -⟩
    · exact absurd hdelivered hstate
    · exact ⟨other, hmem, rfl, hdelivered⟩
  · rintro ⟨other, hother, rfl, hdelivered⟩
    refine ⟨other, (Keyed.mem_assign _).mpr (.inr ⟨hother, fun hid => hnot ?_⟩), rfl,
      hdelivered⟩
    exact ⟨other, hother, hid, hdelivered⟩

/-- A written receipt that is `DELIVERED` delivers its intent. -/
theorem delivered_withReceipt_of_delivered (receipt : JiraDeliveryReceipt)
    (hstate : receipt.state = .DELIVERED) (mappings : List JiraResourceMapping) :
    (rows.withReceipt receipt mappings).delivered = insert receipt.intentId rows.delivered := by
  ext key
  constructor
  · rintro ⟨other, hother, rfl, hdelivered⟩
    rcases (Keyed.mem_assign _).mp hother with rfl | ⟨hmem, -⟩
    · exact .inl rfl
    · exact .inr ⟨other, hmem, rfl, hdelivered⟩
  · rintro (rfl | ⟨other, hother, rfl, hdelivered⟩)
    · exact ⟨receipt, (Keyed.mem_assign _).mpr (.inl rfl), rfl, hstate⟩
    · by_cases hid : other.intentId = receipt.intentId
      · exact ⟨receipt, (Keyed.mem_assign _).mpr (.inl rfl), hid.symm, hstate⟩
      · exact ⟨other, (Keyed.mem_assign _).mpr (.inr ⟨hother, hid⟩), rfl, hdelivered⟩

/-- Writing a receipt of an intent that is not delivered yet. -/
theorem Valid.withReceipt (h : rows.Valid) (receipt : JiraDeliveryReceipt)
    {mappings : List JiraResourceMapping} (hid : receipt.intentId ∈ rows.intents.map (·.semanticKey))
    (hnot : receipt.intentId ∉ rows.delivered)
    (hretry : receipt.state = .RETRYABLE → receipt.nextAttemptAt.isSome = true)
    (hmappings : rows.mappings ⊆ mappings) (hnodup : (mappings.map (·.identity)).Nodup)
    (hcleared : receipt.state = .DELIVERED → ∀ intent ∈ rows.intents,
      intent.semanticKey = receipt.intentId → rows.Cleared intent) :
    (rows.withReceipt receipt mappings).Valid ∧ rows.Grows (rows.withReceipt receipt mappings) := by
  constructor
  · exact {
      sequences := h.sequences
      bounded := h.bounded
      keys := h.keys
      receiptKeys := Keyed.nodup_assign _ h.receiptKeys
      references := by
        intro other hother
        rcases (Keyed.mem_assign _).mp hother with rfl | ⟨hmem, -⟩
        · exact hid
        · exact h.references other hmem
      retries := by
        intro other hother
        rcases (Keyed.mem_assign _).mp hother with rfl | ⟨hmem, -⟩
        · exact hretry
        · exact h.retries other hmem
      mappingKeys := hnodup
      inOrder := by
        by_cases hstate : receipt.state = .DELIVERED
        · obtain ⟨intent, hintent, hkey⟩ := List.mem_map.mp hid
          rw [delivered_withReceipt_of_delivered receipt hstate, ← hkey]
          exact Outbox.InOrder.deliver h.inOrder h.eq_of_key (hcleared hstate intent hintent hkey)
        · rw [delivered_withReceipt_of_retryable receipt hstate hnot]
          exact h.inOrder }
  · refine ⟨⟨[], (List.append_nil _).symm, by simp [Outbox.Discipline.Behind]⟩, ?_, hmappings⟩
    intro other hother hstate
    refine (Keyed.mem_assign _).mpr (.inr ⟨hother, fun hsame => hnot ?_⟩)
    exact ⟨other, hother, hsame, hstate⟩

theorem requireIntent_eq_ok {id : IntentId} {u : Unit} :
    rows.requireIntent id = .ok u ↔ id ∈ rows.intents.map (·.semanticKey) := by
  unfold requireIntent
  split_ifs with hmem
  · exact ⟨fun _ => hmem, fun _ => rfl⟩
  · constructor
    · intro h
      cases h
    · exact fun h => absurd h hmem

theorem ensureMapping_spec {mappings mappings' : List JiraResourceMapping}
    {value : JiraResourceMapping} (h : (mappings.map (·.identity)).Nodup)
    (hok : ensureMapping mappings value = .ok mappings') :
    (mappings'.map (·.identity)).Nodup ∧ mappings ⊆ mappings' := by
  unfold ensureMapping at hok
  cases hlookup : Keyed.lookup (·.identity) mappings value.identity with
  | none =>
    rw [hlookup] at hok
    simp only at hok
    split_ifs at hok
    cases hok
    have hnew : value.identity ∉ mappings.map (·.identity) :=
      (Keyed.lookup_eq_none _).mp hlookup
    refine ⟨?_, List.subset_append_left _ _⟩
    rw [List.map_append, List.map_singleton]
    exact List.Nodup.append h (List.nodup_singleton _) (List.disjoint_singleton.mpr hnew)
  | some existing =>
    rw [hlookup] at hok
    simp only at hok
    split_ifs at hok
    cases hok
    exact ⟨h, List.Subset.refl _⟩

theorem ensureMappings_spec {mappings mappings' values : List JiraResourceMapping}
    (h : (mappings.map (·.identity)).Nodup)
    (hok : values.foldlM ensureMapping mappings = .ok mappings') :
    (mappings'.map (·.identity)).Nodup ∧ mappings ⊆ mappings' := by
  refine foldlM_induction
    (motive := fun ms => (ms.map (·.identity)).Nodup ∧ mappings ⊆ ms) hok
    ⟨h, List.Subset.refl _⟩ ?_
  rintro ms value ms' - ⟨hnodup, hsub⟩ hstep
  obtain ⟨hnodup', hsub'⟩ := ensureMapping_spec hnodup hstep
  exact ⟨hnodup', List.Subset.trans hsub hsub'⟩

theorem withReceipt_of_new (receipt : JiraDeliveryReceipt) (mappings : List JiraResourceMapping)
    (h : rows.receiptOf receipt.intentId = none) :
    rows.withReceipt receipt mappings =
      { rows with receipts := rows.receipts ++ [receipt], mappings } := by
  unfold withReceipt
  rw [Keyed.assign_of_not_mem _ (receiptOf_eq_none h)]

/-- The success of a cleared intent delivers it, and changes nothing when it is delivered. -/
theorem recordSuccess_spec {result : JiraDeliverySuccess} (h : rows.Valid)
    (hcleared : ∀ intent ∈ rows.intents, intent.semanticKey = result.intentId →
      rows.Cleared intent) (hok : rows.recordSuccess result = .ok rows') :
    rows'.Valid ∧ rows.Grows rows' ∧ rows'.intents = rows.intents ∧
      rows'.delivered = insert result.intentId rows.delivered := by
  simp only [recordSuccess, bind_eq_ok, exists_unit, requireIntent_eq_ok] at hok
  obtain ⟨hid, mappings, hmappings, hok⟩ := hok
  obtain ⟨hnodup, hsub⟩ := ensureMappings_spec h.mappingKeys hmappings
  -- the intent has no receipt, one that may be retried, or one that is delivered
  cases hreceipt : rows.receiptOf result.intentId with
  | none =>
    rw [hreceipt, pure_eq_ok] at hok
    rw [← withReceipt_of_new (deliveredReceipt result) mappings hreceipt] at hok
    subst hok
    have hnot : result.intentId ∉ rows.delivered := by
      rw [h.mem_delivered, hreceipt]
      simp [isOutstanding]
    obtain ⟨hvalid, hgrows⟩ := h.withReceipt (deliveredReceipt result) hid hnot
      (fun hstate => by cases hstate) hsub hnodup fun _ => hcleared
    exact ⟨hvalid, hgrows, rfl, delivered_withReceipt_of_delivered _ rfl mappings⟩
  | some receipt =>
    obtain ⟨hmem, hreceiptId⟩ := receiptOf_eq_some hreceipt
    rw [hreceipt] at hok
    simp only at hok
    by_cases hstate : receipt.state ≠ .DELIVERED
    · rw [if_pos hstate, pure_eq_ok] at hok
      have hnot : receipt.intentId ∉ rows.delivered := by
        rw [hreceiptId, h.mem_delivered, hreceipt]
        simp [isOutstanding, hstate]
      let succeeded : JiraDeliveryReceipt := { receipt with
        state := .DELIVERED
        attempts := receipt.attempts + 1
        nextAttemptAt := none
        lastAttemptAt := result.deliveredAt
        deliveredAt := some result.deliveredAt
        lastError := none }
      obtain ⟨hvalid, hgrows⟩ := h.withReceipt succeeded (hreceiptId ▸ hid) hnot
        (fun hretry => by cases hretry) hsub hnodup fun _ => hreceiptId ▸ hcleared
      refine ⟨hok ▸ hvalid, hok ▸ hgrows, by rw [← hok], ?_⟩
      rw [← hok, ← hreceiptId]
      exact delivered_withReceipt_of_delivered succeeded rfl mappings
    · rw [if_neg hstate, pure_eq_ok] at hok
      rw [not_not] at hstate
      subst hok
      refine ⟨{ h with mappingKeys := hnodup },
        { Grows.refl rows with mappings := hsub }, rfl, ?_⟩
      have hdelivered : result.intentId ∈ rows.delivered := ⟨receipt, hmem, hreceiptId, hstate⟩
      exact (Set.insert_eq_of_mem hdelivered).symm

/-- A failure delivers nothing. -/
theorem recordFailure_spec {result : JiraDeliveryFailure} (h : rows.Valid)
    (hok : rows.recordFailure result = .ok rows') :
    rows'.Valid ∧ rows.Grows rows' ∧ rows'.intents = rows.intents ∧
      rows'.delivered = rows.delivered := by
  simp only [recordFailure, bind_eq_ok, exists_unit, requireIntent_eq_ok] at hok
  obtain ⟨hid, hok⟩ := hok
  cases hreceipt : rows.receiptOf result.intentId with
  -- the first failure of an intent writes its receipt
  | none =>
    rw [hreceipt, pure_eq_ok, ← withReceipt_of_new (retryableReceipt result) rows.mappings
      hreceipt] at hok
    subst hok
    have hnot : result.intentId ∉ rows.delivered := by
      rw [h.mem_delivered, hreceipt]
      simp [isOutstanding]
    obtain ⟨hvalid, hgrows⟩ := h.withReceipt (retryableReceipt result) hid hnot (fun _ => rfl)
      (List.Subset.refl _) h.mappingKeys fun hstate => by cases hstate
    exact ⟨hvalid, hgrows, rfl,
      delivered_withReceipt_of_retryable _ (fun hstate => by cases hstate) hnot _⟩
  | some receipt =>
    obtain ⟨hmem, hreceiptId⟩ := receiptOf_eq_some hreceipt
    rw [hreceipt] at hok
    simp only at hok
    -- a late failure of a delivered intent changes nothing
    by_cases hstate : receipt.state = .DELIVERED
    · rw [if_pos hstate, pure_eq_ok] at hok
      subst hok
      exact ⟨h, .refl rows, rfl, rfl⟩
    · rw [if_neg hstate, pure_eq_ok] at hok
      have hnot : receipt.intentId ∉ rows.delivered := by
        rw [hreceiptId, h.mem_delivered, hreceipt]
        simp [isOutstanding, hstate]
      let failedAgain : JiraDeliveryReceipt := { receipt with
        attempts := receipt.attempts + 1
        nextAttemptAt := some result.retryAt
        lastAttemptAt := result.failedAt
        lastError := some result.error }
      obtain ⟨hvalid, hgrows⟩ := h.withReceipt failedAgain (hreceiptId ▸ hid) hnot (fun _ => rfl)
        (List.Subset.refl _) h.mappingKeys
        fun hdelivered => absurd hdelivered hstate
      refine ⟨hok ▸ hvalid, hok ▸ hgrows, by rw [← hok], ?_⟩
      rw [← hok]
      exact delivered_withReceipt_of_retryable failedAgain hstate hnot _

/-! ### Written receipts -/

theorem receiptOf_withReceipt (receipt : JiraDeliveryReceipt) (mappings : List JiraResourceMapping)
    (id : IntentId) : (rows.withReceipt receipt mappings).receiptOf id =
      if receipt.intentId = id then some receipt else rows.receiptOf id :=
  Keyed.lookup_assign JiraDeliveryReceipt.intentId rows.receipts receipt id

/-- The success of an outstanding intent writes its receipt. -/
theorem recordSuccess_of_outstanding {result : JiraDeliverySuccess}
    (hout : isOutstanding (rows.receiptOf result.intentId) = true)
    (hok : rows.recordSuccess result = .ok rows') :
    ∃ receipt mappings, rows' = rows.withReceipt receipt mappings ∧
      receipt.intentId = result.intentId ∧ receipt.state = .DELIVERED := by
  simp only [recordSuccess, bind_eq_ok, exists_unit] at hok
  obtain ⟨-, mappings, -, hok⟩ := hok
  cases hreceipt : rows.receiptOf result.intentId with
  | none =>
    rw [hreceipt, pure_eq_ok] at hok
    exact ⟨deliveredReceipt result, mappings, by rw [← hok, withReceipt_of_new _ _ hreceipt], rfl, rfl⟩
  | some receipt =>
    have hid := (receiptOf_eq_some hreceipt).2
    rw [hreceipt] at hok hout
    have hstate : receipt.state ≠ .DELIVERED := by simpa [isOutstanding] using hout
    simp only [if_pos hstate, pure_eq_ok] at hok
    exact ⟨_, mappings, hok.symm, hid, rfl⟩

/-- The failure of an outstanding intent writes its receipt, with the retry time. -/
theorem recordFailure_of_outstanding {result : JiraDeliveryFailure}
    (hout : isOutstanding (rows.receiptOf result.intentId) = true)
    (hok : rows.recordFailure result = .ok rows') :
    ∃ receipt, rows' = rows.withReceipt receipt rows.mappings ∧
      receipt.intentId = result.intentId ∧ receipt.state = .RETRYABLE ∧
      receipt.nextAttemptAt = some result.retryAt := by
  simp only [recordFailure, bind_eq_ok, exists_unit] at hok
  obtain ⟨-, hok⟩ := hok
  cases hreceipt : rows.receiptOf result.intentId with
  | none =>
    rw [hreceipt, pure_eq_ok] at hok
    exact ⟨retryableReceipt result, by rw [← hok, withReceipt_of_new _ _ hreceipt], rfl, rfl, rfl⟩
  | some receipt =>
    have hid := (receiptOf_eq_some hreceipt).2
    rw [hreceipt] at hok hout
    have hstate : receipt.state ≠ .DELIVERED := by simpa [isOutstanding] using hout
    have hretry : receipt.state = .RETRYABLE := by
      cases hs : receipt.state with
      | RETRYABLE => rfl
      | DELIVERED => exact absurd hs hstate
    simp only [if_neg hstate, pure_eq_ok] at hok
    exact ⟨_, hok.symm, hid, hretry, rfl⟩

/-- A success is recorded when its mappings fit the persisted ones. -/
theorem exists_recordSuccess {result : JiraDeliverySuccess} :
    (∃ rows', rows.recordSuccess result = .ok rows') ↔
      result.intentId ∈ rows.intents.map (·.semanticKey) ∧
        ∃ mappings, result.mappings.foldlM ensureMapping rows.mappings = .ok mappings := by
  simp only [recordSuccess, bind_eq_ok, exists_unit, requireIntent_eq_ok]
  constructor
  · rintro ⟨rows', hid, mappings, hmappings, -⟩
    exact ⟨hid, mappings, hmappings⟩
  · rintro ⟨hid, mappings, hmappings⟩
    cases hreceipt : rows.receiptOf result.intentId with
    | none => exact ⟨_, hid, mappings, hmappings, rfl⟩
    | some receipt =>
      by_cases hstate : receipt.state ≠ .DELIVERED
      · exact ⟨_, hid, mappings, hmappings, if_pos hstate⟩
      · exact ⟨_, hid, mappings, hmappings, if_neg hstate⟩

/-- A failure of a known intent is recorded. -/
theorem exists_recordFailure {result : JiraDeliveryFailure}
    (hid : result.intentId ∈ rows.intents.map (·.semanticKey)) :
    ∃ rows', rows.recordFailure result = .ok rows' := by
  simp only [recordFailure, bind_eq_ok, exists_unit, requireIntent_eq_ok]
  cases hreceipt : rows.receiptOf result.intentId with
  | none => exact ⟨_, hid, rfl⟩
  | some receipt =>
    by_cases hstate : receipt.state = .DELIVERED
    · exact ⟨_, hid, if_pos hstate⟩
    · exact ⟨_, hid, if_neg hstate⟩

/-! ### Pending intents -/

theorem mem_outstanding (h : rows.Valid) {row : ProjectionIntent × Option JiraDeliveryReceipt} :
    row ∈ rows.outstanding ↔ row.1 ∈ rows.intents ∧ row.2 = rows.receiptOf row.1.id ∧
      row.1.semanticKey ∉ rows.delivered := by
  have hdelivered : row.1.semanticKey ∉ rows.delivered ↔
      isOutstanding (rows.receiptOf row.1.id) = true := by
    rw [h.mem_delivered, Bool.not_eq_false]
    rfl
  rw [outstanding, Ordering.mem_sortOn, List.mem_filter, List.mem_map, hdelivered]
  constructor
  · rintro ⟨⟨intent, hintent, rfl⟩, hout⟩
    exact ⟨hintent, rfl, hout⟩
  · rintro ⟨hintent, hreceipt, hout⟩
    exact ⟨⟨row.1, hintent, by rw [← hreceipt]⟩, by rw [hreceipt]; exact hout⟩

/-- The outstanding intents are in append order. -/
theorem outstanding_pairwise (h : rows.Valid) :
    rows.outstanding.Pairwise fun a b => a.1.appendSequence < b.1.appendSequence := by
  have hsorted : ((rows.intents.map fun intent => (intent, rows.receiptOf intent.id)).filter
      fun row => isOutstanding row.2).Pairwise
        fun a b => a.1.appendSequence < b.1.appendSequence := by
    refine List.Pairwise.filter _ ?_
    rw [List.pairwise_map]
    exact h.sequences
  have hstays := Ordering.sortOn_of_pairwise
    (hsorted.imp fun {a b} hlt => show Ordering.lexLe [(a.1.appendSequence : ℤ)]
      [(b.1.appendSequence : ℤ)] = true by simp [Ordering.lexLe, hlt])
  rw [outstanding, hstays]
  exact hsorted

theorem mem_deliveredKeys (h : rows.Valid) {key : SemanticKey} :
    key ∈ rows.deliveredKeys ↔ key ∈ rows.delivered := by
  unfold deliveredKeys
  rw [List.mem_map]
  constructor
  · rintro ⟨intent, hintent, rfl⟩
    obtain ⟨receipt, hreceipt, hboth⟩ := List.any_eq_true.mp (List.mem_filter.mp hintent).2
    rw [Bool.and_eq_true, decide_eq_true_eq, decide_eq_true_eq] at hboth
    exact ⟨receipt, hreceipt, hboth.1, hboth.2⟩
  · rintro ⟨receipt, hreceipt, rfl, hstate⟩
    obtain ⟨intent, hintent, hkey⟩ := List.mem_map.mp (h.references receipt hreceipt)
    refine ⟨intent, List.mem_filter.mpr ⟨hintent, List.any_eq_true.mpr ⟨receipt, hreceipt, ?_⟩⟩, hkey⟩
    rw [Bool.and_eq_true, decide_eq_true_eq, decide_eq_true_eq]
    exact ⟨hkey.symm, hstate⟩

theorem dependenciesDelivered_iff (h : rows.Valid) {intent : ProjectionIntent} :
    rows.dependenciesDelivered intent = true ↔ ∀ key ∈ intent.dependsOn, key ∈ rows.delivered := by
  simp only [dependenciesDelivered, List.all_eq_true, decide_eq_true_eq, mem_deliveredKeys h]

/-- The head of a team is its oldest outstanding intent. -/
theorem mem_firstOutstanding (h : rows.Valid)
    {row : ProjectionIntent × Option JiraDeliveryReceipt} :
    row ∈ rows.firstOutstandingByTeam ↔ row ∈ rows.outstanding ∧
      ∀ other ∈ rows.intents, other.teamId = row.1.teamId →
        other.appendSequence < row.1.appendSequence → other.semanticKey ∈ rows.delivered := by
  have hpairwise := outstanding_pairwise h
  rw [firstOutstandingByTeam, Outbox.mem_firsts]
  constructor
  · rintro ⟨before, after, hrows, hfirst⟩
    have hmem : row ∈ rows.outstanding := by
      rw [hrows]
      exact List.mem_append_right _ List.mem_cons_self
    refine ⟨hmem, fun other hother hteam hlt => ?_⟩
    -- an earlier outstanding intent would stand before the row
    by_contra hnot
    have hothermem : (other, rows.receiptOf other.id) ∈ rows.outstanding :=
      (mem_outstanding h).mpr ⟨hother, rfl, hnot⟩
    rw [hrows] at hothermem hpairwise
    rcases List.mem_append.mp hothermem with hbefore | hafter
    · exact hfirst _ hbefore hteam
    · rcases List.mem_cons.mp hafter with hrow | hafter
      · rw [← hrow] at hlt
        exact absurd hlt (lt_irrefl _)
      · have hgt := List.rel_of_pairwise_cons (List.pairwise_append.mp hpairwise).2.1 hafter
        exact absurd hlt (Nat.lt_asymm hgt)
  · rintro ⟨hmem, hearlier⟩
    obtain ⟨before, after, hrows⟩ := List.append_of_mem hmem
    refine ⟨before, after, hrows, fun other hother hteam => ?_⟩
    have hothermem : other ∈ rows.outstanding := by
      rw [hrows]
      exact List.mem_append_left _ hother
    obtain ⟨hintent, -, hnot⟩ := (mem_outstanding h).mp hothermem
    rw [hrows] at hpairwise
    have hlt := (List.pairwise_append.mp hpairwise).2.2 other hother row List.mem_cons_self
    exact hnot (hearlier other.1 hintent hteam hlt)

/-- The intent can be delivered now. -/
structure Waiting (rows : DeliveryRows) (asOf : ℤ) (intent : ProjectionIntent) : Prop where
  cleared : rows.Cleared intent
  outstanding : intent.id ∉ rows.delivered
  due : due (rows.receiptOf intent.id) asOf = true

theorem mem_ready (h : rows.Valid) {asOf : ℤ}
    {row : ProjectionIntent × Option JiraDeliveryReceipt} :
    row ∈ rows.ready asOf ↔ rows.Waiting asOf row.1 ∧ row.2 = rows.receiptOf row.1.id := by
  rw [ready, List.mem_filter, mem_firstOutstanding h, mem_outstanding h, Bool.and_eq_true,
    dependenciesDelivered_iff h]
  constructor
  · rintro ⟨⟨⟨hmem, hreceipt, hnot⟩, hearlier⟩, hdue, hneeds⟩
    exact ⟨⟨⟨hmem, hearlier, hneeds⟩, hnot, hreceipt ▸ hdue⟩, hreceipt⟩
  · rintro ⟨⟨⟨hmem, hearlier, hneeds⟩, hnot, hdue⟩, hreceipt⟩
    exact ⟨⟨⟨hmem, hreceipt, hnot⟩, hearlier⟩, hreceipt ▸ hdue, hneeds⟩

/-- An intent keeps waiting while only the receipts of others are written. -/
theorem Waiting.grows {asOf : ℤ} {intent : ProjectionIntent} (h : rows.Waiting asOf intent)
    (hvalid : rows.Valid) (hvalid' : rows'.Valid) (hgrows : rows.Grows rows')
    (hreceipt : rows'.receiptOf intent.id = rows.receiptOf intent.id) :
    rows'.Waiting asOf intent where
  cleared := hgrows.cleared h.cleared
  outstanding := by
    rw [hvalid'.mem_delivered, hreceipt, ← hvalid.mem_delivered]
    exact h.outstanding
  due := by
    rw [hreceipt]
    exact h.due

/-- Every pending intent is cleared. -/
theorem pending_cleared (h : rows.Valid) {asOf limit : ℤ} {items : List PendingJiraIntent}
    (hok : rows.pending asOf limit = .ok items) : ∀ item ∈ items, rows.Cleared item.intent := by
  simp only [pending, bind_eq_ok, exists_unit, require_eq_ok, pure_eq_ok] at hok
  obtain ⟨-, rfl⟩ := hok
  intro item hitem
  obtain ⟨row, hrow, rfl⟩ := List.mem_map.mp hitem
  obtain ⟨hfirst, hready⟩ := List.mem_filter.mp (List.mem_of_mem_take hrow)
  rw [Bool.and_eq_true, dependenciesDelivered_iff h] at hready
  obtain ⟨hmem, hearlier⟩ := (mem_firstOutstanding h).mp hfirst
  exact { mem := ((mem_outstanding h).mp hmem).1, earlier := hearlier, needs := hready.2 }

/-- An outstanding intent is due from its retry time on. -/
theorem due_of_outstanding (h : rows.Valid) {id : IntentId} (hnot : id ∉ rows.delivered) {asOf : ℤ}
    (hretry : ∀ receipt ∈ rows.receipts, receipt.intentId = id →
      ∀ instant, receipt.nextAttemptAt = some instant → instant ≤ asOf) :
    due (rows.receiptOf id) asOf = true := by
  cases hreceipt : rows.receiptOf id with
  | none => rfl
  | some receipt =>
    obtain ⟨hmem, hid⟩ := receiptOf_eq_some hreceipt
    have hstate : receipt.state = .RETRYABLE := by
      cases hs : receipt.state with
      | RETRYABLE => rfl
      | DELIVERED => exact absurd ⟨receipt, hmem, hid, hs⟩ hnot
    obtain ⟨instant, hinstant⟩ := Option.isSome_iff_exists.mp (h.retries receipt hmem hstate)
    simp [due, hstate, hinstant, hretry receipt hmem hid instant hinstant]

/-- The cleared outstanding intents whose retry time has come are pending, up to the limit. -/
theorem pending_of_cleared (h : rows.Valid) {intent : ProjectionIntent} (hcleared : rows.Cleared intent)
    (hnot : intent.semanticKey ∉ rows.delivered) {asOf limit : ℤ}
    (hlimit : 1 ≤ limit ∧ limit ≤ maxPendingLimit)
    (hretry : ∀ receipt ∈ rows.receipts, receipt.intentId = intent.semanticKey →
      ∀ instant, receipt.nextAttemptAt = some instant → instant ≤ asOf) :
    ∃ items, rows.pending asOf limit = .ok items ∧ ((∃ item ∈ items, item.intent = intent) ∨
      ((items.length : ℤ) = limit ∧
        ∀ item ∈ items, item.intent.appendSequence < intent.appendSequence)) := by
  -- a cleared intent is the first of its team, and its retry is due
  have hready : (intent, rows.receiptOf intent.id) ∈ rows.ready asOf := by
    have hout : (intent, rows.receiptOf intent.id) ∈ rows.outstanding :=
      (mem_outstanding h).mpr ⟨hcleared.mem, rfl, hnot⟩
    refine List.mem_filter.mpr ⟨(mem_firstOutstanding h).mpr ⟨hout, hcleared.earlier⟩, ?_⟩
    rw [Bool.and_eq_true, dependenciesDelivered_iff h]
    exact ⟨due_of_outstanding h hnot hretry, hcleared.needs⟩
  have hpairwise : (rows.ready asOf).Pairwise
      fun a b => a.1.appendSequence < b.1.appendSequence :=
    (outstanding_pairwise h).sublist
      (List.filter_sublist.trans (Outbox.firsts_sublist _ rows.outstanding))
  refine ⟨((rows.ready asOf).take limit.toNat).map pendingIntent, ?_, ?_⟩
  · simp only [pending, bind_eq_ok, exists_unit, require_eq_ok, pure_eq_ok]
    exact ⟨hlimit, trivial⟩
  · obtain ⟨before, after, hsplit⟩ := List.append_of_mem hready
    rw [hsplit] at hpairwise ⊢
    by_cases hfits : before.length < limit.toNat
    · refine .inl ⟨pendingIntent (intent, rows.receiptOf intent.id), List.mem_map_of_mem ?_, rfl⟩
      obtain ⟨k, hk⟩ : ∃ k, limit.toNat = before.length + (k + 1) :=
        ⟨limit.toNat - before.length - 1, by omega⟩
      rw [hk, List.take_length_add_append, List.take_succ_cons]
      exact List.mem_append_right _ List.mem_cons_self
    · -- The heads of other teams that are older use up the limit.
      have htake : (before ++ (intent, rows.receiptOf intent.id) :: after).take limit.toNat =
          before.take limit.toNat := List.take_append_of_le_length (by omega)
      rw [htake]
      refine .inr ⟨?_, ?_⟩
      · rw [List.length_map, List.length_take]
        omega
      · intro item hitem
        obtain ⟨row, hrow, rfl⟩ := List.mem_map.mp hitem
        exact (List.pairwise_append.mp hpairwise).2.2 row (List.mem_of_mem_take hrow) _
          List.mem_cons_self

end DeliveryRows

end JiraSimulator
