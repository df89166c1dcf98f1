import JiraSimulator.Domain.SemanticPaths

/-!
# Identifiers and draw messages are read back

A path begins with a name that tells the helper, and the helper tells how many segments follow; the
segments have no slash, except for the semantic key of a ledger draft, which stands last.  So a path
determines its coordinate (`name_inj`), and a canonical message the coordinate of its draw
(`canonicalMessage_inj`).

Main results:
* `identities_distinct` : two coordinates have two identifiers unless UUIDv5 collides on their
  paths, and two draws have two messages;
* `identities_distinct_small` : the first run and the first member of a team.
-/

namespace JiraSimulator.SemanticPath

open Library.DecimalText Library.JsonText Library.PathText Library.Ordering

/-! ### Segments without a slash -/

theorem slash_notMem_fixedDigits {base : ℕ} (hpos : 0 < base) (hbase : base ≤ 16) (width n : ℕ) :
    '/' ∉ fixedDigits base width n := fun h =>
  absurd (isAlphanum_of_mem_fixedDigits hpos hbase h) (by decide)

theorem slash_notMem_uuid (id : UUID) : '/' ∉ id.text := by
  have hhex : '/' ∉ fixedDigits 16 32 id.value :=
    slash_notMem_fixedDigits (by omega) le_rfl 32 id.value
  simp only [UUID.text, List.mem_append, List.mem_cons, not_or]
  exact ⟨fun h => hhex (List.mem_of_mem_take h), by decide,
    fun h => hhex (List.mem_of_mem_drop (List.mem_of_mem_take h)), by decide,
    fun h => hhex (List.mem_of_mem_drop (List.mem_of_mem_take h)), by decide,
    fun h => hhex (List.mem_of_mem_drop (List.mem_of_mem_take h)), by decide,
    fun h => hhex (List.mem_of_mem_drop h)⟩

theorem slash_notMem_creationKind (kind : CreationKind) :
    '/' ∉ (creationKindValue kind).toList := by
  cases kind <;> decide

theorem slash_notMem_decisionType (decision : DecisionType) :
    '/' ∉ (decisionTypeValue decision).toList := by
  cases decision <;> decide

theorem slash_notMem_ledger (ledger : Ledger) : '/' ∉ ledger.head.toList := by
  cases ledger <;> decide

/-! ### Segments are read back -/

/-- The digits of an identifier are its text without the hyphens. -/
theorem filter_uuid_text (id : UUID) :
    id.text.filter (· ≠ '-') = fixedDigits 16 32 id.value := by
  have hhex : ∀ c ∈ fixedDigits 16 32 id.value, c ≠ '-' := by
    rintro c hc rfl
    exact absurd (isAlphanum_of_mem_fixedDigits (by omega) le_rfl hc) (by decide)
  have hkeep : ∀ part : List Char, (∀ c ∈ part, c ∈ fixedDigits 16 32 id.value) →
      part.filter (· ≠ '-') = part := fun part hpart =>
    List.filter_eq_self.mpr fun c hc => by simpa using hhex c (hpart c hc)
  unfold UUID.text
  simp only [List.filter_append, List.filter_cons]
  rw [hkeep _ fun c h => List.mem_of_mem_take h,
    hkeep _ fun c h => List.mem_of_mem_drop (List.mem_of_mem_take h),
    hkeep _ fun c h => List.mem_of_mem_drop (List.mem_of_mem_take h),
    hkeep _ fun c h => List.mem_of_mem_drop (List.mem_of_mem_take h),
    hkeep _ fun c h => List.mem_of_mem_drop h]
  simp only [ne_eq, not_true_eq_false, decide_false, Bool.false_eq_true, if_false]
  -- the groups stand one after the other
  have hjoin : ∀ (hex : List Char) (k n : ℕ),
      (hex.drop k).take n ++ hex.drop (k + n) = hex.drop k := by
    intro hex k n
    rw [← List.drop_drop, List.take_append_drop]
  rw [hjoin _ 16 4, hjoin _ 12 4, hjoin _ 8 4, List.take_append_drop]

theorem uuid_text_inj {id id' : UUID} (h : id.text = id'.text) : id = id' := by
  have hhex := congrArg (List.filter (· ≠ '-')) h
  rw [filter_uuid_text, filter_uuid_text] at hhex
  have hvalue := fixedDigits_inj (by omega) le_rfl
    (lt_of_lt_of_eq id.isLt (by norm_num)) (lt_of_lt_of_eq id'.isLt (by norm_num)) hhex
  cases id
  cases id'
  exact UUID.mk.injEq .. ▸ hvalue

theorem date_text_inj {date date' : Date} (h : date.text = date'.text) : date = date' := by
  unfold Date.text at h
  obtain ⟨hyear, hrest⟩ := List.append_inj h (by simp)
  obtain ⟨hmonth, hday⟩ := List.append_inj (List.cons.inj hrest).2 (by simp)
  have hyear' : date.year = date'.year := fixedDigits_inj (by omega) (by omega)
    (Nat.lt_of_le_of_lt date.year_le (by norm_num))
    (Nat.lt_of_le_of_lt date'.year_le (by norm_num)) hyear
  have hmonth' : date.month = date'.month := fixedDigits_inj (by omega) (by omega)
    (Nat.lt_of_le_of_lt date.month_le (by norm_num))
    (Nat.lt_of_le_of_lt date'.month_le (by norm_num)) hmonth
  have hday' : date.day = date'.day := fixedDigits_inj (by omega) (by omega)
    (Nat.lt_of_le_of_lt date.day_le (by norm_num))
    (Nat.lt_of_le_of_lt date'.day_le (by norm_num)) (List.cons.inj hday).2
  cases date
  cases date'
  simp_all

theorem creationKindValue_inj {kind kind' : CreationKind}
    (h : (creationKindValue kind).toList = (creationKindValue kind').toList) : kind = kind' := by
  have hread : ∀ k : CreationKind, [CreationKind.INITIAL_BACKLOG, .SCRUM_REPLENISHMENT,
      .KANBAN_ARRIVAL, .AGENT_CREATED, .JIRA_IMPORTED].find? (fun other =>
        (creationKindValue other).toList = (creationKindValue k).toList) = some k := by
    intro k
    cases k <;> decide
  have heq := hread kind
  rw [h, hread kind'] at heq
  exact (Option.some.inj heq).symm

theorem factorKindValue_inj {kind kind' : FactorKind}
    (h : (factorKindValue kind).toList = (factorKindValue kind').toList) : kind = kind' := by
  cases kind <;> cases kind' <;> first | rfl | exact absurd h (by decide)

/-- The decision types, in the order of the enumeration. -/
def decisionTypes : List DecisionType :=
  [.BACKLOG_ISSUE_TYPE, .BACKLOG_STORY_POINTS, .BACKLOG_PRIORITY, .ITEM_DESCRIPTION_QUALITY,
    .ITEM_LATENT_COMPLEXITY, .STATUS_DWELL, .STATUS_TOUCH, .SCRUM_CAPACITY_TARGET,
    .RISK_EXTERNAL_DEPENDENCY_OUTCOME, .RISK_EXTERNAL_DEPENDENCY_DURATION,
    .RISK_CANCELLATION_OUTCOME, .RISK_REVIEW_REJECTION_OUTCOME, .RISK_REWORK_DURATION,
    .RISK_MEMBER_UNAVAILABLE_OUTCOME, .RISK_MEMBER_UNAVAILABLE_DURATION, .FORCED_REWORK_DURATION,
    .KANBAN_ARRIVAL_GAP, .KANBAN_CLASS_OF_SERVICE]

theorem decisionTypeValue_inj {decision decision' : DecisionType}
    (h : (decisionTypeValue decision).toList = (decisionTypeValue decision').toList) :
    decision = decision' := by
  have hread : ∀ d : DecisionType, decisionTypes.find? (fun other =>
      (decisionTypeValue other).toList = (decisionTypeValue d).toList) = some d := by
    intro d
    cases d <;> decide
  have heq := hread decision
  rw [h, hread decision'] at heq
  exact (Option.some.inj heq).symm

theorem ordinal_inj {m n : ℤ} (hm : 0 ≤ m) (hn : 0 ≤ n) (h : pythonInteger m = pythonInteger n) :
    m = n := by
  unfold pythonInteger signed digitsOf at h
  rw [decide_eq_false (by omega), decide_eq_false (by omega)] at h
  have habs := toDigits_inj h
  omega

/-! ### Paths -/

namespace Coordinate

/-- The segments of the path of a coordinate. -/
def segments : Coordinate → List (List Char)
  | team blueprintSha256 => ["team".toList, blueprintSha256.toList]
  | run teamId ordinal => ["run".toList, teamId.text, pythonInteger ordinal]
  | member teamId index => ["member".toList, teamId.text, pythonInteger index]
  | sprint teamId ordinal => ["sprint".toList, teamId.text, pythonInteger ordinal]
  | visit itemId ordinal => ["visit".toList, itemId.text, pythonInteger ordinal]
  | dependency visitId ordinal => ["dependency".toList, visitId.text, pythonInteger ordinal]
  | rework itemId ordinal => ["rework".toList, itemId.text, pythonInteger ordinal]
  | item teamId kind sequence =>
    ["item".toList, teamId.text, (creationKindValue kind).toList, pythonInteger sequence]
  | blueprint teamId => ["blueprint".toList, teamId.text, ['0']]
  | runtime teamId => ["runtime".toList, teamId.text]
  | factor itemId kind => ["factor".toList, itemId.text, (factorKindValue kind).toList]
  | sprintScope sprintId itemId => ["sprint-scope".toList, sprintId.text, itemId.text]
  | evaluation teamId runId decision entityId date =>
    ["evaluation".toList, teamId.text, runId.text, (decisionTypeValue decision).toList,
      entityId.text, date.text]
  | riskOverlay teamId runId memberId date =>
    ["risk-overlay".toList, teamId.text, runId.text, memberId.text, date.text]
  | jiraProvisioning teamId runId => ["jira-provisioning".toList, teamId.text, runId.text]
  | draft ledger semanticKey => [ledger.head.toList, semanticKey.toList]

/-- The path of a coordinate. -/
def name (c : Coordinate) : String :=
  String.ofList (path c.segments)

/-- The ordinals of a coordinate are not negative. -/
def Ordinal : Coordinate → Prop
  | run _ n | member _ n | sprint _ n | visit _ n | dependency _ n | rework _ n => 0 ≤ n
  | item _ _ n => 0 ≤ n
  | _ => True

theorem ordinalUuid_eq_ok {uuid5 : String → UUID} {head : String} {parent : UUID} {n : ℤ}
    {id : UUID} (h : ordinalUuid uuid5 head parent n = .ok id) :
    0 ≤ n ∧ id = semanticUuid uuid5 [head.toList, parent.text, pythonInteger n] := by
  simp only [ordinalUuid, requireNonNegativeInteger, require, Library.Outcome.bind_unit_eq_ok,
    Library.Outcome.check_eq_ok, Library.Outcome.pure_eq_ok] at h
  exact ⟨h.1.1, h.2.symm⟩

/-- An identifier is the UUIDv5 of the path. -/
theorem identifier_eq_ok {uuid5 : String → UUID} {c : Coordinate} {id : UUID}
    (h : c.identifier uuid5 = .ok id) : c.Ordinal ∧ id = uuid5 c.name := by
  cases c with
  | team blueprintSha256 =>
    simp only [identifier, teamRngId, require, Library.Outcome.bind_unit_eq_ok,
      Library.Outcome.check_eq_ok, Library.Outcome.pure_eq_ok] at h
    exact ⟨trivial, h.2.symm⟩
  | run teamId n => exact ordinalUuid_eq_ok h
  | member teamId n => exact ordinalUuid_eq_ok h
  | sprint teamId n => exact ordinalUuid_eq_ok h
  | visit itemId n => exact ordinalUuid_eq_ok h
  | dependency visitId n => exact ordinalUuid_eq_ok h
  | rework itemId n => exact ordinalUuid_eq_ok h
  | item teamId kind n =>
    simp only [identifier, itemRngId, requireNonNegativeInteger, require,
      Library.Outcome.bind_unit_eq_ok, Library.Outcome.check_eq_ok,
      Library.Outcome.pure_eq_ok] at h
    exact ⟨h.1.1, h.2.symm⟩
  | blueprint teamId => exact ⟨trivial, (Except.ok.inj h).symm⟩
  | runtime teamId => exact ⟨trivial, (Except.ok.inj h).symm⟩
  | factor itemId kind => exact ⟨trivial, (Except.ok.inj h).symm⟩
  | sprintScope sprintId itemId => exact ⟨trivial, (Except.ok.inj h).symm⟩
  | evaluation teamId runId decision entityId date => exact ⟨trivial, (Except.ok.inj h).symm⟩
  | riskOverlay teamId runId memberId date => exact ⟨trivial, (Except.ok.inj h).symm⟩
  | jiraProvisioning teamId runId => exact ⟨trivial, (Except.ok.inj h).symm⟩
  | draft ledger semanticKey =>
    simp only [identifier, draftIdentity, require, Library.Outcome.bind_unit_eq_ok,
      Library.Outcome.check_eq_ok, Library.Outcome.pure_eq_ok] at h
    exact ⟨trivial, h.2.symm⟩

/-- No segment but the last has a slash. -/
theorem slash_notMem_segments (c : Coordinate) : ∀ x ∈ c.segments.dropLast, '/' ∉ x := by
  cases c <;> simp only [segments, List.dropLast, List.mem_cons, List.not_mem_nil, or_false,
    forall_eq_or_imp, forall_eq, slash_notMem_uuid, slash_notMem_creationKind,
    slash_notMem_decisionType, slash_notMem_ledger, not_false_eq_true, and_true] <;> decide

/-- The first segments, by the constructors. -/
def heads : List (List Char) :=
  ["team".toList, "run".toList, "member".toList, "sprint".toList, "visit".toList,
    "dependency".toList, "rework".toList, "item".toList, "blueprint".toList, "runtime".toList,
    "factor".toList, "sprint-scope".toList, "evaluation".toList, "risk-overlay".toList,
    "jira-provisioning".toList, "activity".toList, "ground-truth".toList, "projection".toList]

/-- The place of the first segment of a path among `heads`; the ledgers share the last place. -/
def place (segments : List (List Char)) : ℕ :=
  min 15 (heads.idxOf (segments.headD []))

/-- The number of the helper. -/
def helper : Coordinate → ℕ
  | team _ => 0
  | run _ _ => 1
  | member _ _ => 2
  | sprint _ _ => 3
  | visit _ _ => 4
  | dependency _ _ => 5
  | rework _ _ => 6
  | item _ _ _ => 7
  | blueprint _ => 8
  | runtime _ => 9
  | factor _ _ => 10
  | sprintScope _ _ => 11
  | evaluation _ _ _ _ _ => 12
  | riskOverlay _ _ _ _ => 13
  | jiraProvisioning _ _ => 14
  | draft _ _ => 15

/-- The first segment tells the helper. -/
theorem place_segments (c : Coordinate) : place c.segments = c.helper := by
  unfold place
  cases c with
  | draft ledger semanticKey =>
    show min 15 (heads.idxOf ledger.head.toList) = 15
    cases ledger <;> decide
  | _ => simp only [segments, List.headD_cons, helper]; decide

theorem segments_ne_nil (c : Coordinate) : ∃ head next rest, c.segments = head :: next :: rest := by
  cases c <;> exact ⟨_, _, _, rfl⟩

/-- Two paths that are one text come from one helper. -/
theorem helper_eq {c c' : Coordinate} (h : path c.segments = path c'.segments) :
    c.helper = c'.helper := by
  obtain ⟨head, next, rest, hc⟩ := segments_ne_nil c
  obtain ⟨head', next', rest', hc'⟩ := segments_ne_nil c'
  have hhead : '/' ∉ head := slash_notMem_segments c head (by rw [hc]; exact List.mem_cons_self)
  have hhead' : '/' ∉ head' :=
    slash_notMem_segments c' head' (by rw [hc']; exact List.mem_cons_self)
  rw [hc, hc'] at h
  have hsame : head = head' := (append_slash_inj hhead hhead' h).1
  rw [← place_segments c, ← place_segments c', hc, hc']
  exact congrArg (fun x => min 15 (heads.idxOf x)) hsame

/-- The helper tells the number of the segments. -/
theorem length_segments {c c' : Coordinate} (h : c.helper = c'.helper) :
    c.segments.length = c'.segments.length := by
  have hlength : ∀ c : Coordinate, c.segments.length =
      [2, 3, 3, 3, 3, 3, 3, 4, 3, 2, 3, 3, 6, 5, 3, 2].getD c.helper 0 := by
    intro c
    cases c <;> rfl
  rw [hlength c, hlength c', h]

/-- The segments of one helper determine what it was given. -/
theorem segments_inj {c c' : Coordinate} (hordinal : c.Ordinal) (hordinal' : c'.Ordinal)
    (hhelper : c.helper = c'.helper) (h : c.segments = c'.segments) : c = c' := by
  -- the helper fixes the kind of coordinate, and each kind has as many segments as fields
  cases c <;> cases c' <;> simp [helper] at hhelper
  case team.team digest digest' =>
    simp only [segments, List.cons.injEq, true_and, and_true] at h
    rw [String.toList_inj.mp h]
  case run.run teamId n teamId' n' =>
    simp only [segments, List.cons.injEq, true_and, and_true] at h
    rw [uuid_text_inj h.1, ordinal_inj hordinal hordinal' h.2]
  case member.member teamId n teamId' n' =>
    simp only [segments, List.cons.injEq, true_and, and_true] at h
    rw [uuid_text_inj h.1, ordinal_inj hordinal hordinal' h.2]
  case sprint.sprint teamId n teamId' n' =>
    simp only [segments, List.cons.injEq, true_and, and_true] at h
    rw [uuid_text_inj h.1, ordinal_inj hordinal hordinal' h.2]
  case visit.visit itemId n itemId' n' =>
    simp only [segments, List.cons.injEq, true_and, and_true] at h
    rw [uuid_text_inj h.1, ordinal_inj hordinal hordinal' h.2]
  case dependency.dependency visitId n visitId' n' =>
    simp only [segments, List.cons.injEq, true_and, and_true] at h
    rw [uuid_text_inj h.1, ordinal_inj hordinal hordinal' h.2]
  case rework.rework itemId n itemId' n' =>
    simp only [segments, List.cons.injEq, true_and, and_true] at h
    rw [uuid_text_inj h.1, ordinal_inj hordinal hordinal' h.2]
  case item.item teamId kind n teamId' kind' n' =>
    simp only [segments, List.cons.injEq, true_and, and_true] at h
    rw [uuid_text_inj h.1, creationKindValue_inj h.2.1, ordinal_inj hordinal hordinal' h.2.2]
  case blueprint.blueprint teamId teamId' =>
    simp only [segments, List.cons.injEq, true_and, and_true] at h
    rw [uuid_text_inj h]
  case runtime.runtime teamId teamId' =>
    simp only [segments, List.cons.injEq, true_and, and_true] at h
    rw [uuid_text_inj h]
  case factor.factor itemId kind itemId' kind' =>
    simp only [segments, List.cons.injEq, true_and, and_true] at h
    rw [uuid_text_inj h.1, factorKindValue_inj h.2]
  case sprintScope.sprintScope sprintId itemId sprintId' itemId' =>
    simp only [segments, List.cons.injEq, true_and, and_true] at h
    rw [uuid_text_inj h.1, uuid_text_inj h.2]
  case evaluation.evaluation teamId runId decision entityId date teamId' runId' decision' entityId'
      date' =>
    simp only [segments, List.cons.injEq, true_and, and_true] at h
    rw [uuid_text_inj h.1, uuid_text_inj h.2.1, decisionTypeValue_inj h.2.2.1,
      uuid_text_inj h.2.2.2.1, date_text_inj h.2.2.2.2]
  case riskOverlay.riskOverlay teamId runId memberId date teamId' runId' memberId' date' =>
    simp only [segments, List.cons.injEq, true_and, and_true] at h
    rw [uuid_text_inj h.1, uuid_text_inj h.2.1, uuid_text_inj h.2.2.1, date_text_inj h.2.2.2]
  case jiraProvisioning.jiraProvisioning teamId runId teamId' runId' =>
    simp only [segments, List.cons.injEq, true_and, and_true] at h
    rw [uuid_text_inj h.1, uuid_text_inj h.2]
  case draft.draft ledger semanticKey ledger' semanticKey' =>
    simp only [segments, List.cons.injEq, and_true] at h
    have hledger : ledger = ledger' := by
      cases ledger <;> cases ledger' <;> first | rfl | exact absurd h.1 (by decide)
    rw [hledger, String.toList_inj.mp h.2]

/-- A path is read back. -/
theorem name_inj {c c' : Coordinate} (hordinal : c.Ordinal) (hordinal' : c'.Ordinal)
    (h : c.name = c'.name) : c = c' := by
  have hpath : path c.segments = path c'.segments := String.ofList_inj.mp h
  have hhelper := helper_eq hpath
  exact segments_inj hordinal hordinal' hhelper (path_inj (length_segments hhelper)
    (slash_notMem_segments c) (slash_notMem_segments c') hpath)

end Coordinate

/-! ### Draw messages -/

/-- The members of a message in the order of the text. -/
def messageMembers (draw : DrawCoordinate) : List (String × JsonValue) :=
  [("algorithm", .string "HMAC_SHA256_U53_V1"),
    ("decision_type", .string (decisionTypeValue draw.decisionType)),
    ("draw_index", .int draw.drawIndex),
    ("entity_id", .string (String.ofList draw.entityId.text)),
    ("occurrence", .int draw.occurrence),
    ("run_id", .string (String.ofList draw.runId.text)),
    ("team_id", .string (String.ofList draw.teamId.text))]

/-- What a message is made of. -/
theorem canonicalMessage_eq_ok {draw : DrawCoordinate} {message : String}
    (h : canonicalMessage draw = .ok message) :
    0 ≤ draw.occurrence ∧ 0 ≤ draw.drawIndex ∧ message.toList =
      '{' :: (joined ((messageMembers draw).map jsonDumps.member) ++ ['}']) := by
  simp only [canonicalMessage, requireNonNegativeInteger, require,
    Library.Outcome.bind_unit_eq_ok, Library.Outcome.check_eq_ok, Library.Outcome.pure_eq_ok] at h
  obtain ⟨hoccurrence, -, hindex, rfl⟩ := h
  refine ⟨hoccurrence.1, hindex.1, ?_⟩
  rw [canonicalJson, String.toList_ofList, Style.text_object]
  congr 4
  -- the keys tell the order of the members
  apply @Style.eq_of_names [
    ("algorithm", .string "HMAC_SHA256_U53_V1"),
    ("team_id", .string (String.ofList draw.teamId.text)),
    ("run_id", .string (String.ofList draw.runId.text)),
    ("entity_id", .string (String.ofList draw.entityId.text)),
    ("decision_type", .string (decisionTypeValue draw.decisionType)),
    ("occurrence", .int draw.occurrence),
    ("draw_index", .int draw.drawIndex)]
  · show ["algorithm", "team_id", "run_id", "entity_id", "decision_type", "occurrence",
      "draw_index"].Nodup
    decide
  · exact fun m hm => mem_sortOn.mp hm
  · simp [messageMembers]
  · rw [Style.sorted_names]
    show sortOn codePoints ["algorithm", "team_id", "run_id", "entity_id", "decision_type",
      "occurrence", "draw_index"] = ["algorithm", "decision_type", "draw_index", "entity_id",
      "occurrence", "run_id", "team_id"]
    decide

/-- A string under a key, with what follows. -/
theorem string_member_inj {key s s' : String} {tail tail' : List Char}
    (h : jsonDumps.member (key, .string s) ++ tail = jsonDumps.member (key, .string s') ++ tail') :
    s = s' ∧ tail = tail' := by
  simp only [Style.member, Style.text, List.append_assoc, List.cons_append] at h
  have hvalue := (List.cons.inj (List.append_cancel_left h)).2
  exact quoted_inj hvalue

/-- A number under a key, with what follows. -/
theorem int_member_inj {key : String} {m n : ℤ} (hm : 0 ≤ m) (hn : 0 ≤ n) {tail tail' : List Char}
    (hclosed : Closed tail) (hclosed' : Closed tail')
    (h : jsonDumps.member (key, .int m) ++ tail = jsonDumps.member (key, .int n) ++ tail') :
    m = n ∧ tail = tail' := by
  simp only [Style.member, Style.text, List.append_assoc, List.cons_append] at h
  have hvalue := (List.cons.inj (List.append_cancel_left h)).2
  obtain ⟨heq, htail⟩ := number_inj (fun c hc => numberChar_pythonInteger hc)
    (fun c hc => numberChar_pythonInteger hc) hclosed hclosed' hvalue
  exact ⟨ordinal_inj hm hn heq, htail⟩

theorem comma_closed (tail : List Char) : Closed (',' :: tail) := by
  intro c hc
  cases hc
  exact .inl rfl

/-- A message is read back. -/
theorem canonicalMessage_inj {draw draw' : DrawCoordinate} {message : String}
    (h : canonicalMessage draw = .ok message) (h' : canonicalMessage draw' = .ok message) :
    draw = draw' := by
  obtain ⟨hoccurrence, hindex, htext⟩ := canonicalMessage_eq_ok h
  obtain ⟨hoccurrence', hindex', htext'⟩ := canonicalMessage_eq_ok h'
  have heq := (List.cons.inj (htext.symm.trans htext')).2
  simp only [messageMembers, List.map_cons, List.map_nil, joined, List.flatMap_cons,
    List.flatMap_nil, List.append_assoc, List.cons_append, List.nil_append] at heq
  obtain ⟨-, heq⟩ := string_member_inj heq
  obtain ⟨hdecision, heq⟩ := string_member_inj (List.cons.inj heq).2
  obtain ⟨hdraw, heq⟩ := int_member_inj hindex hindex' (comma_closed _) (comma_closed _)
    (List.cons.inj heq).2
  obtain ⟨hentity, heq⟩ := string_member_inj (List.cons.inj heq).2
  obtain ⟨hocc, heq⟩ := int_member_inj hoccurrence hoccurrence' (comma_closed _) (comma_closed _)
    (List.cons.inj heq).2
  obtain ⟨hrun, heq⟩ := string_member_inj (List.cons.inj heq).2
  obtain ⟨hteam, -⟩ := string_member_inj (List.cons.inj heq).2
  have hdecision' := decisionTypeValue_inj (congrArg String.toList hdecision)
  have hentity' := uuid_text_inj (String.ofList_inj.mp hentity)
  have hrun' := uuid_text_inj (String.ofList_inj.mp hrun)
  have hteam' := uuid_text_inj (String.ofList_inj.mp hteam)
  cases draw
  cases draw'
  simp_all

/-! ### The identifiers in use -/

/-- Where UUIDv5 has no collision on the names in use, two coordinates have two identifiers; and two
draws have two messages. -/
theorem identities_distinct (uuid5 : String → UUID) (names : Set String)
    (collisionFree : Set.InjOn uuid5 names) :
    (∀ c c' : Coordinate, c ≠ c' → c.name ∈ names → c'.name ∈ names → ∀ id id',
      c.identifier uuid5 = .ok id → c'.identifier uuid5 = .ok id' → id ≠ id') ∧
    ∀ draw draw' : DrawCoordinate, draw ≠ draw' → ∀ message message',
      canonicalMessage draw = .ok message → canonicalMessage draw' = .ok message' →
        message ≠ message' := by
  constructor
  · intro c c' hne hmem hmem' id id' h h' hid
    obtain ⟨hordinal, hc⟩ := Coordinate.identifier_eq_ok h
    obtain ⟨hordinal', hc'⟩ := Coordinate.identifier_eq_ok h'
    have hname : c.name = c'.name := collisionFree hmem hmem' (by rw [← hc, ← hc', hid])
    exact hne (Coordinate.name_inj hordinal hordinal' hname)
  · intro draw draw' hne message message' h h' hmessage
    exact hne (canonicalMessage_inj h (hmessage ▸ h'))

/-- The team whose blueprint hash is sixty-four zeros. -/
def zeroTeam : UUID := ⟨0xf58ce72ffd5a56c28dc30be5867e4f5a, by decide⟩

/-- UUIDv5 in the namespace of the simulator, on the paths of the first run and the first member of
that team. -/
def sampleUuid5 (name : String) : UUID :=
  if name = "run/f58ce72f-fd5a-56c2-8dc3-0be5867e4f5a/0" then
    ⟨0x3794daf3213b5eb28aefbe0ff1b7c0c5, by decide⟩
  else if name = "member/f58ce72f-fd5a-56c2-8dc3-0be5867e4f5a/0" then
    ⟨0xe90058a14c315badb501690d0304cc55, by decide⟩
  else ⟨0, by decide⟩

/-- The first run and the first member of a team have two identifiers. -/
theorem identities_distinct_small :
    ∃ id id', runRngId sampleUuid5 zeroTeam 0 = .ok id ∧
      memberRngId sampleUuid5 zeroTeam 0 = .ok id' ∧ id ≠ id' := by
  have hinj : Set.InjOn sampleUuid5 {"run/f58ce72f-fd5a-56c2-8dc3-0be5867e4f5a/0",
      "member/f58ce72f-fd5a-56c2-8dc3-0be5867e4f5a/0"} := by
    rintro x (rfl | rfl) y (rfl | rfl) h
    · rfl
    · exact absurd h (by decide)
    · exact absurd h (by decide)
    · rfl
  refine ⟨_, _, rfl, rfl, ?_⟩
  exact (identities_distinct sampleUuid5 _ hinj).1 (.run zeroTeam 0) (.member zeroTeam 0)
    (by decide) (.inl (by decide)) (.inr (by decide)) _ _ rfl rfl

end JiraSimulator.SemanticPath
