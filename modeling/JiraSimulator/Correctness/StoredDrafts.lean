import JiraSimulator.Domain.JsonDocuments
import JiraSimulator.Library.JsonRoundTrip

/-!
# Stored drafts

A payload is encoded when its draft is built, stored as text with a digest, and read again when the
row is loaded.

Main result:
* `drafts_readBack` : an acceptable envelope becomes a draft whose text reads back as the payload,
  and the check on loading passes for the drafts that `create` builds and for no other row.
-/

namespace JiraSimulator.Document

open Library.DecimalText Library.JsonText Library.Outcome SemanticPath

/-! ### Canonical texts -/

theorem canonicalJson_canonical (v : JsonValue) :
    canonicalJson (jsonDumps.canonical v) = canonicalJson v := by
  unfold canonicalJson
  rw [Style.text_canonical]

theorem canonicalSha256_canonical (v : JsonValue) :
    canonicalSha256 (jsonDumps.canonical v) = canonicalSha256 v := by
  unfold canonicalSha256
  rw [canonicalJson_canonical]

section loads

variable {float : List Char → Option JsonFloat}

/-- A payload that can be read is read with the members of its objects in order. -/
theorem jsonLoads_canonicalJson {v : JsonValue} (h : (pythonReader float).Takes v) :
    jsonLoads float (canonicalJson v) = some (jsonDumps.canonical v) := by
  unfold jsonLoads canonicalJson
  rw [String.toList_ofList]
  exact readText_text codePoints h

theorem validatedJson_of_takes {v : JsonValue} (h : (pythonReader float).Takes v) :
    validatedJson float v = .ok {
      payload := jsonDumps.canonical v, encoded := canonicalJson v
      digest := canonicalSha256 v } := by
  unfold validatedJson
  simp only [jsonLoads_canonicalJson h, canonicalSha256_canonical]

theorem canonicalDocument_eq_ok {encoded : String} {document : JsonValue} :
    canonicalDocument float encoded = .ok document ↔
      jsonLoads float encoded = some document ∧ canonicalJson document = encoded := by
  unfold canonicalDocument
  cases hload : jsonLoads float encoded with
  | none =>
    constructor
    · intro h
      cases h
    · rintro ⟨h, -⟩
      cases h
  | some loaded =>
    simp only [bind_unit_eq_ok, require_eq_ok, pure_eq_ok, Option.some.injEq]
    constructor
    · rintro ⟨hcanonical, rfl⟩
      exact ⟨rfl, hcanonical⟩
    · rintro ⟨rfl, hcanonical⟩
      exact ⟨hcanonical, rfl⟩

end loads

/-! ### Drafts -/

theorem draftIdentity_eq_ok {uuid5 : String → UUID} {ledger : Ledger} {key : String} {id : UUID} :
    draftIdentity uuid5 ledger key = .ok id ↔
      isNonEmptyText key ∧ semanticUuid uuid5 [ledger.head.toList, key.toList] = id := by
  unfold draftIdentity
  rw [bind_unit_eq_ok, require_eq_ok, pure_eq_ok]

section drafts

variable (uuid5 : String → UUID) (float : List Char → Option JsonFloat)

/-- What `create` asks of an envelope. -/
structure DraftEnvelope.Acceptable (ledger : Ledger) (envelope : DraftEnvelope) : Prop where
  semanticKey : isNonEmptyText envelope.semanticKey
  schemaVersion : isNonEmptyText envelope.schemaVersion
  payload : (pythonReader float).Takes envelope.payload
  suppliedId : ∀ supplied ∈ envelope.suppliedId,
    supplied = semanticUuid uuid5 [ledger.head.toList, envelope.semanticKey.toList]
  suppliedPayloadSha256 : ∀ supplied ∈ envelope.suppliedPayloadSha256,
    supplied = canonicalSha256 envelope.payload

variable {uuid5 float}

/-- What the check of a loaded row asks. -/
theorem LedgerDraft.validate_eq_ok {draft : LedgerDraft} :
    draft.validate uuid5 float = .ok () ↔ isNonEmptyText draft.semanticKey ∧
      isNonEmptyText draft.schemaVersion ∧ ∃ document,
        (jsonLoads float draft.canonicalPayload = some document ∧
          canonicalJson document = draft.canonicalPayload) ∧
        draft.payloadSha256 = canonicalSha256 document ∧
        draft.id = semanticUuid uuid5 [draft.details.ledger.head.toList, draft.semanticKey.toList] ∧
        draft.details.validate = .ok () := by
  unfold LedgerDraft.validate requireNonEmpty
  simp only [bind_eq_ok, exists_unit, require_eq_ok, canonicalDocument_eq_ok,
    draftIdentity_eq_ok]
  constructor
  · rintro ⟨hkey, hversion, document, hdocument, hdigest, id, ⟨-, rfl⟩, hid, hdetails⟩
    exact ⟨hkey, hversion, document, hdocument, hdigest, hid, hdetails⟩
  · rintro ⟨hkey, hversion, document, hdocument, hdigest, hid, hdetails⟩
    exact ⟨hkey, hversion, document, hdocument, hdigest, _, ⟨hkey, rfl⟩, hid, hdetails⟩

section float

variable (hfloat : ∀ text x, float text = some x → float (pythonFloat x) = some x)

include hfloat

/-- The envelope of a payload that can be read is encoded with the payload as it is read. -/
theorem LedgerDraft.create_of_acceptable {envelope : DraftEnvelope} {details : DraftDetails}
    (h : envelope.Acceptable uuid5 float details.ledger) (hdetails : details.validate = .ok ()) :
    LedgerDraft.create uuid5 float envelope details = .ok {
      id := semanticUuid uuid5 [details.ledger.head.toList, envelope.semanticKey.toList]
      semanticKey := envelope.semanticKey, schemaVersion := envelope.schemaVersion
      occurredAt := envelope.occurredAt, canonicalPayload := canonicalJson envelope.payload
      payloadSha256 := canonicalSha256 envelope.payload, details } := by
  have hload : jsonLoads float (canonicalJson envelope.payload) =
      some (jsonDumps.canonical envelope.payload) := jsonLoads_canonicalJson h.payload
  have htakes : (pythonReader float).Takes (jsonDumps.canonical envelope.payload) :=
    readText_takes hfloat hload
  -- the envelope, with the payload that was read
  have henvelope : envelope.create float =
      .ok { envelope with payload := jsonDumps.canonical envelope.payload } := by
    unfold DraftEnvelope.create requireNonEmpty
    simp only [bind_eq_ok, exists_unit, require_eq_ok, pure_eq_ok]
    exact ⟨h.semanticKey, h.schemaVersion, _, validatedJson_of_takes h.payload, rfl⟩
  have hdraft : draftOf uuid5 float
      { envelope with payload := jsonDumps.canonical envelope.payload } details = .ok {
        id := semanticUuid uuid5 [details.ledger.head.toList, envelope.semanticKey.toList]
        semanticKey := envelope.semanticKey, schemaVersion := envelope.schemaVersion
        occurredAt := envelope.occurredAt, canonicalPayload := canonicalJson envelope.payload
        payloadSha256 := canonicalSha256 envelope.payload, details } := by
    unfold draftOf
    simp only [bind_eq_ok, exists_unit, require_eq_ok, pure_eq_ok, draftIdentity_eq_ok]
    refine ⟨_, ⟨h.semanticKey, rfl⟩, _, validatedJson_of_takes htakes, h.suppliedId, ?_, ?_⟩
    · rw [canonicalSha256_canonical]
      exact h.suppliedPayloadSha256
    · rw [canonicalSha256_canonical, canonicalJson_canonical]
  unfold LedgerDraft.create
  simp only [bind_eq_ok, exists_unit, pure_eq_ok]
  refine ⟨_, henvelope, hdetails, _, hdraft, ?_, rfl⟩
  rw [LedgerDraft.validate_eq_ok]
  exact ⟨h.semanticKey, h.schemaVersion, _, ⟨hload, canonicalJson_canonical _⟩,
    (canonicalSha256_canonical _).symm, rfl, hdetails⟩

/-- A row that passes the check is built by `create` from what it holds. -/
theorem LedgerDraft.create_of_validate {draft : LedgerDraft}
    (h : draft.validate uuid5 float = .ok ()) : ∃ envelope : DraftEnvelope,
      LedgerDraft.create uuid5 float envelope draft.details = .ok draft := by
  obtain ⟨hkey, hversion, document, ⟨hload, hcanonical⟩, hdigest, hid, hdetails⟩ :=
    LedgerDraft.validate_eq_ok.mp h
  let envelope : DraftEnvelope := {
    semanticKey := draft.semanticKey, schemaVersion := draft.schemaVersion
    occurredAt := draft.occurredAt, payload := document, suppliedId := some draft.id
    suppliedPayloadSha256 := some draft.payloadSha256 }
  have hacceptable : envelope.Acceptable uuid5 float draft.details.ledger := {
    semanticKey := hkey
    schemaVersion := hversion
    payload := readText_takes hfloat hload
    suppliedId := by
      intro supplied hsupplied
      rw [← Option.some.inj hsupplied]
      exact hid
    suppliedPayloadSha256 := by
      intro supplied hsupplied
      rw [← Option.some.inj hsupplied]
      exact hdigest }
  have hcreate := LedgerDraft.create_of_acceptable hfloat hacceptable hdetails
  have hsame : canonicalJson envelope.payload = draft.canonicalPayload ∧
      canonicalSha256 envelope.payload = draft.payloadSha256 := ⟨hcanonical, hdigest.symm⟩
  rw [hsame.1, hsame.2, ← hid] at hcreate
  exact ⟨envelope, hcreate⟩

end float

end drafts

/-- An acceptable envelope becomes a draft whose text reads back as the payload with the members of
its objects in order, two payloads have one text exactly when they are one value up to that order,
and the check on loading passes for the drafts that `create` builds and for no other row. -/
theorem drafts_readBack (uuid5 : String → UUID) (float : List Char → Option JsonFloat)
    (hfloat : ∀ text x, float text = some x → float (pythonFloat x) = some x) :
    (∀ envelope : DraftEnvelope, ∀ details : DraftDetails,
      envelope.Acceptable uuid5 float details.ledger → details.validate = .ok () →
      ∃ draft, LedgerDraft.create uuid5 float envelope details = .ok draft ∧
        canonicalDocument float draft.canonicalPayload =
          .ok (jsonDumps.canonical envelope.payload)) ∧
    (∀ v w : JsonValue, (pythonReader float).Takes v → (pythonReader float).Takes w →
      (canonicalJson v = canonicalJson w ↔ jsonDumps.canonical v = jsonDumps.canonical w)) ∧
    ∀ draft : LedgerDraft, draft.validate uuid5 float = .ok () ↔
      ∃ envelope details, LedgerDraft.create uuid5 float envelope details = .ok draft := by
  refine ⟨fun envelope details h hdetails => ?_, fun v w hv hw => ?_, fun draft => ?_⟩
  · refine ⟨_, LedgerDraft.create_of_acceptable hfloat h hdetails, ?_⟩
    rw [canonicalDocument_eq_ok]
    exact ⟨jsonLoads_canonicalJson h.payload, canonicalJson_canonical _⟩
  · unfold canonicalJson
    rw [String.ofList_inj]
    exact text_eq_text_iff hv hw
  · constructor
    · intro h
      obtain ⟨envelope, hcreate⟩ := LedgerDraft.create_of_validate hfloat h
      exact ⟨envelope, draft.details, hcreate⟩
    · rintro ⟨envelope, details, hcreate⟩
      -- `create` ends with the check
      unfold LedgerDraft.create at hcreate
      simp only [bind_eq_ok, exists_unit, pure_eq_ok] at hcreate
      obtain ⟨-, -, -, built, -, hvalid, rfl⟩ := hcreate
      exact hvalid

/-! ### A visit -/

/-- UUIDv5 in the namespace of the simulator, on the path of the activity of a first visit. -/
def visitUuid5 (name : String) : UUID :=
  if name = "activity/visit/1" then ⟨0xb7ac2eb989435c9c91b0dc3d0f227d1a, by decide⟩
  else ⟨1, by decide⟩

def oneHalf : JsonFloat :=
  .nonzero false { significand := 5, point := 0, normal := by decide, short := by decide }

/-- A reader of a single double. -/
def readHalf (text : List Char) : Option JsonFloat :=
  if text = ['0', '.', '5'] then some oneHalf else none

/-- The payload `{"share": 0.5, "by": "dev"}`. -/
def visitEnvelope : DraftEnvelope where
  semanticKey := "visit/1"
  schemaVersion := "1.0"
  occurredAt := 0
  payload := .object [("share", .float oneHalf), ("by", .string "dev")]

def visitDetails : DraftDetails :=
  .activity "STATUS_ENTERED" "work_item" ⟨1, by decide⟩ 0

/-- The draft of the visit is built, its text reads back with the members in order, and it passes
the check on loading. -/
theorem drafts_readBack_visit : ∃ draft,
    LedgerDraft.create visitUuid5 readHalf visitEnvelope visitDetails = .ok draft ∧
      canonicalDocument readHalf draft.canonicalPayload =
        .ok (.object [("by", .string "dev"), ("share", .float oneHalf)]) ∧
      draft.validate visitUuid5 readHalf = .ok () := by
  have hfloat : ∀ text x, readHalf text = some x → readHalf (pythonFloat x) = some x := by
    intro text x h
    unfold readHalf at h
    split_ifs at h
    obtain rfl := Option.some.inj h
    decide
  have hpayload : (pythonReader readHalf).Takes visitEnvelope.payload := by
    refine Reader.Takes.object (by decide) ?_
    simp only [List.forall_mem_cons, List.not_mem_nil, false_imp_iff, implies_true, and_true]
    constructor
    · intro part hpart
      rw [parts, List.mem_singleton] at hpart
      rw [hpart]
      exact (by decide : readHalf (pythonFloat oneHalf) = some oneHalf)
    · exact .of_no_parts rfl
  have hacceptable : visitEnvelope.Acceptable visitUuid5 readHalf visitDetails.ledger := {
    semanticKey := by decide
    schemaVersion := by decide
    payload := hpayload
    suppliedId := fun supplied h => by cases h
    suppliedPayloadSha256 := fun supplied h => by cases h }
  obtain ⟨hcreated, -, hchecked⟩ := drafts_readBack visitUuid5 readHalf hfloat
  obtain ⟨draft, hcreate, hread⟩ := hcreated visitEnvelope visitDetails hacceptable rfl
  refine ⟨draft, hcreate, ?_, (hchecked draft).mpr ⟨_, _, hcreate⟩⟩
  rw [hread]
  rfl

end JiraSimulator.Document
