import JiraSimulator.Integrations.JiraSprintPages

/-!
# Reading the sprints of a board

* `lt_of_nextPageStart`: a further page starts later, whatever the answers are.
* `readSprints_of_truthful`: the loop reads the sprints behind a position.
* `sprint_paging`: a board is read completely, and every reading makes progress.
-/

namespace JiraSimulator

open Library.Outcome

variable {α : Type}

/-! ### Progress -/

theorem lt_of_nextPageStart {document : SprintDocument α} {currentStart nextStart : ℤ}
    {hasValues : Bool} (h : nextPageStart document currentStart hasValues = some nextStart) :
    currentStart < nextStart := by
  unfold nextPageStart at h
  split_ifs at h
  split at h
  · dsimp only at h
    split_ifs at h with hstops
    obtain rfl := Option.some.inj h
    push Not at hstops
    exact hstops.1
  · cases h

/-- The start positions of at most the given number of pages, from the n-th request on. -/
def pageStarts (server : SprintServer α) : ℕ → ℕ → ℤ → List ℤ
  | 0, _, _ => []
  | pages + 1, n, startAt =>
    startAt ::
      match sprintPage server n startAt with
      | .ok (_, some nextStart) => pageStarts server pages (n + 1) nextStart
      | _ => []

theorem lt_of_sprintPage {server : SprintServer α} {n : ℕ} {startAt nextStart : ℤ}
    {values : List α} (h : sprintPage server n startAt = .ok (values, some nextStart)) :
    startAt < nextStart := by
  simp only [sprintPage, bind_eq_ok, pure_eq_ok, Prod.mk.injEq] at h
  obtain ⟨document, -, found, -, -, hnext⟩ := h
  exact lt_of_nextPageStart hnext

/-- A loop that still runs has requested all its pages. -/
theorem length_pageStarts {server : SprintServer α} {pages n : ℕ} {startAt : ℤ} {sprints : List α}
    (h : readSprints server pages n startAt sprints = none) :
    (pageStarts server pages n startAt).length = pages := by
  induction pages generalizing n startAt sprints with
  | zero => rfl
  | succ pages ih =>
    rw [readSprints] at h
    rw [pageStarts, List.length_cons]
    rcases hpage : sprintPage server n startAt with error | ⟨values, _ | nextStart⟩
    · simp only [hpage, reduceCtorEq] at h
    · simp only [hpage, reduceCtorEq] at h
    · simp only [hpage] at h ⊢
      rw [ih h]

theorem pageStarts_increase (server : SprintServer α) (pages n : ℕ) (startAt : ℤ) :
    (pageStarts server pages n startAt).Pairwise (· < ·) ∧
      ∀ start ∈ pageStarts server pages n startAt, startAt ≤ start := by
  induction pages generalizing n startAt with
  | zero => exact ⟨List.Pairwise.nil, fun _ h => absurd h List.not_mem_nil⟩
  | succ pages ih =>
    have hlast : [startAt].Pairwise (· < ·) ∧ ∀ start ∈ [startAt], startAt ≤ start :=
      ⟨List.pairwise_singleton _ _, fun start h => (List.mem_singleton.mp h).ge⟩
    rw [pageStarts]
    rcases hpage : sprintPage server n startAt with error | ⟨values, _ | nextStart⟩
    · exact hlast
    · exact hlast
    · obtain ⟨hlater, hbehind⟩ := ih (n + 1) nextStart
      have hlt := lt_of_sprintPage hpage
      constructor
      · refine List.pairwise_cons.mpr ⟨fun start hstart => ?_, hlater⟩
        exact hlt.trans_le (hbehind start hstart)
      · intro start hstart
        rcases List.mem_cons.mp hstart with rfl | hstart
        · exact le_rfl
        · exact hlt.le.trans (hbehind start hstart)

/-! ### Truthful answers -/

/-- The server holds a list of sprints: it answers with the sprints on a page of a positive size,
which may differ between requests, reports this size, and reports nothing false. -/
structure Truthful (server : SprintServer α) (sprints : List α) : Prop where
  answers : ∀ (n start : ℕ), ∃ (size : ℕ) (document : SprintDocument α),
    server n start = .ok document ∧ 0 < size ∧
    document.values = .ok ((sprints.drop start).take size) ∧
    document.maxResults = some (.int size) ∧
    (∀ field ∈ document.isLast, field = .bool (decide (sprints.length ≤ start + size))) ∧
    (∀ field ∈ document.startAt, field = .int start) ∧
    (∀ field ∈ document.total, field = .int sprints.length)

/-- The next start of an answer with a page size and a truthful start. -/
theorem nextPageStart_eq {document : SprintDocument α} {start size : ℕ}
    (hmax : document.maxResults = some (.int size))
    (hstart : ∀ field ∈ document.startAt, field = .int start)
    (hlast : document.isLast ≠ some (.bool true)) (hsize : 0 < size) :
    nextPageStart document start true =
      if (document.total.bind PageField.asInt?).any fun total => total ≤ (start + size : ℤ) then
        none
      else some (start + size : ℤ) := by
  have hpageStart : (document.startAt.getD (.int start)).asInt? = some (start : ℤ) := by
    cases hfield : document.startAt with
    | none => rfl
    | some field =>
      obtain rfl := hstart field hfield
      rfl
  have hpageSize : (document.maxResults.getD (.int jiraPageSize)).asInt? = some (size : ℤ) := by
    rw [hmax]
    rfl
  have hforward : ¬ (start + size : ℤ) ≤ start := by omega
  unfold nextPageStart
  rw [if_neg (by simp [hlast]), if_neg (by simp [hmax]), hpageStart, hpageSize]
  simp only [hforward, false_or]

/-- A page of truthful answers ends the loop only when no sprint is left behind it, and otherwise
the next page starts there. -/
theorem sprintPage_of_truthful {server : SprintServer α} {sprints : List α}
    (h : Truthful server sprints) (n start : ℕ) :
    ∃ size next, sprintPage server n start = .ok ((sprints.drop start).take size, next) ∧
      0 < size ∧
      ((next = none ∧ sprints.length ≤ start + size) ∨
        (next = some ((start + size : ℕ) : ℤ) ∧ start < sprints.length)) := by
  obtain ⟨size, document, hserver, hsize, hvalues, hmax, hlast, hstart, htotal⟩ := h.answers n start
  have hpage : sprintPage server n start = .ok ((sprints.drop start).take size,
      nextPageStart document start ((sprints.drop start).take size ≠ [])) := by
    simp only [sprintPage, hserver, hvalues, ok_bind]
    rfl
  refine ⟨size, _, hpage, hsize, ?_⟩
  by_cases hmore : start < sprints.length
  swap
  · -- an empty page is the last one
    have hempty : (sprints.drop start).take size = [] := by
      rw [List.drop_eq_nil_of_le (by omega), List.take_nil]
    refine .inl ⟨?_, by omega⟩
    unfold nextPageStart
    rw [hempty, if_pos (.inr rfl)]
  have hvalues : decide ((sprints.drop start).take size ≠ []) = true := by
    have hlength : ((sprints.drop start).take size).length ≠ 0 := by
      rw [List.length_take, List.length_drop]
      omega
    exact decide_eq_true fun hnil => hlength (by rw [hnil]; rfl)
  rw [hvalues]
  -- the server says that the page is the last, or the total is reached, or another follows
  by_cases hisLast : document.isLast = some (.bool true)
  · refine .inl ⟨?_, ?_⟩
    · unfold nextPageStart
      rw [if_pos (.inl hisLast)]
    · have htruth := PageField.bool.inj (hlast _ hisLast)
      exact of_decide_eq_true htruth.symm
  · rw [nextPageStart_eq hmax hstart hisLast hsize]
    split_ifs with hreached
    · refine .inl ⟨rfl, ?_⟩
      cases hfield : document.total with
      | none => simp [hfield] at hreached
      | some field =>
        obtain rfl := htotal field hfield
        simp only [hfield, Option.bind_some, PageField.asInt?, Option.any_some,
          decide_eq_true_eq] at hreached
        omega
    · exact .inr ⟨by push_cast; rfl, hmore⟩

theorem readSprints_of_truthful {server : SprintServer α} {sprints : List α}
    (h : Truthful server sprints) {pages : ℕ} (n start : ℕ) (before : List α)
    (hpages : sprints.length - start < pages) :
    readSprints server pages n start before = some (.ok (before ++ sprints.drop start)) := by
  induction pages generalizing n start before with
  | zero => omega
  | succ pages ih =>
    obtain ⟨size, next, hpage, hsize, ⟨rfl, hend⟩ | ⟨rfl, hmore⟩⟩ :=
      sprintPage_of_truthful h n start
    · have hall : (sprints.drop start).take size = sprints.drop start := by
        apply List.take_of_length_le
        rw [List.length_drop]
        omega
      rw [readSprints, hpage, hall]
    · have hsplit : (sprints.drop start).take size ++ sprints.drop (start + size) =
          sprints.drop start := by
        rw [← List.drop_drop, List.take_append_drop]
      rw [readSprints, hpage]
      show readSprints server pages (n + 1) ((start + size : ℕ) : ℤ) _ = _
      rw [ih (n + 1) _ _ (by omega), List.append_assoc, hsplit]

/-- The sprints of a truthful server are read completely and in order, with at most one page more
than there are sprints.  Whatever the answers are, each further page starts later than all before
it, and as many pages are requested as the loop takes rounds. -/
theorem sprint_paging :
    (∀ {α : Type} {server : SprintServer α} {sprints : List α}, Truthful server sprints →
      ∀ pages, sprints.length < pages → getBoardSprints server pages = some (.ok sprints)) ∧
    ∀ {α : Type} (server : SprintServer α) (pages : ℕ),
      (pageStarts server pages 0 0).Pairwise (· < ·) ∧
      (getBoardSprints server pages = none → (pageStarts server pages 0 0).length = pages) := by
  constructor
  · intro α server sprints h pages hpages
    exact readSprints_of_truthful h 0 0 [] (by omega)
  · intro α server pages
    exact ⟨(pageStarts_increase server pages 0 0).1, length_pageStarts⟩

/-! ### A board of three sprints -/

/-- A server with pages of one and two sprints in turn that reports its page size, and on its first
page the total. -/
def threeSprints : SprintServer String := fun n start =>
  let size := n % 2 + 1
  .ok {
    values := .ok (((["one", "two", "three"] : List String).drop start.toNat).take size)
    isLast := none
    startAt := none
    maxResults := some (.int size)
    total := if n = 0 then some (.int 3) else none }

theorem threeSprints_truthful : Truthful threeSprints ["one", "two", "three"] where
  answers n start := by
    refine ⟨n % 2 + 1, _, rfl, by omega, ?_, rfl, ?_, ?_, ?_⟩
    · rw [Int.toNat_natCast]
    · intro field hfield
      cases hfield
    · intro field hfield
      cases hfield
    · intro field hfield
      split_ifs at hfield
      · exact (Option.some.inj hfield).symm
      · cases hfield

/-- The three sprints are read. -/
theorem sprint_paging_three :
    getBoardSprints threeSprints 4 = some (.ok ["one", "two", "three"]) :=
  sprint_paging.1 threeSprints_truthful 4 (by decide)

end JiraSimulator
