import JiraSimulator.Library.Paging

/-!
# Reading a table page by page

A reader fetches one row more than the limit of a page, shows the rows up to the limit, and goes on
behind the last shown row when there was one more.  Rows may be appended between the reads, with
keys beyond those of the table.

* `rest_append`: appended rows come last.
* `rest_behind`: behind a page lies what the page left out.
* `readPages_spec`: the rows that a reader has seen are the first rows of the table at its last
  read, and all of them when the reader has stopped.
-/

namespace Library.Paging

variable {α : Type} {key : α → ℤ} {limit : ℕ} {cursor : Option ℤ} {rows added : List α}

/-! ### The rows beyond a cursor -/

theorem nodup_of_sorted {l : List α} (h : l.Pairwise fun a b => key a < key b) : l.Nodup :=
  h.imp fun hlt heq => (heq ▸ hlt).ne rfl

/-- The rest is the only sorted list of the rows beyond the cursor. -/
theorem rest_eq {l : List α} (hunique : (rows.map key).Nodup)
    (hsorted : l.Pairwise fun a b => key a < key b)
    (hmem : ∀ row, row ∈ l ↔ row ∈ rows ∧ Beyond cursor (key row)) : rest key cursor rows = l := by
  have hrest : (rest key cursor rows).Pairwise fun a b => key a < key b := rest_sorted hunique
  have hperm : (rest key cursor rows).Perm l :=
    (List.perm_ext_iff_of_nodup (nodup_of_sorted hrest) (nodup_of_sorted hsorted)).mpr fun row =>
      mem_rest.trans (hmem row).symm
  exact hperm.eq_of_pairwise (fun a b _ _ hab hba => absurd hab hba.asymm) hrest hsorted

/-- Without a cursor no row is left out. -/
theorem length_rest_none : (rest key none rows).length = rows.length := by
  have hall : rows.filter (fun row => Beyond none (key row)) = rows := by
    refine List.filter_eq_self.mpr fun row _ => ?_
    exact decide_eq_true fun c hc => by cases hc
  rw [rest, (Ordering.sortOn_perm _ _).length_eq, hall]

/-- The keys of the added rows lie beyond those of the rows. -/
def AllBehind (key : α → ℤ) (rows added : List α) : Prop :=
  ∀ a ∈ rows, ∀ b ∈ added, key a < key b

theorem rest_append (hunique : ((rows ++ added).map key).Nodup)
    (hbehind : AllBehind key rows added) :
    rest key cursor (rows ++ added) = rest key cursor rows ++ rest key cursor added := by
  rw [List.map_append, List.nodup_append] at hunique
  obtain ⟨hrows, hadded, hapart⟩ := hunique
  refine rest_eq ?_ ?_ ?_
  · rw [List.map_append, List.nodup_append]
    exact ⟨hrows, hadded, hapart⟩
  · refine List.pairwise_append.mpr ⟨rest_sorted hrows, rest_sorted hadded, ?_⟩
    intro a ha b hb
    exact hbehind a (mem_rest.mp ha).1 b (mem_rest.mp hb).1
  · intro row
    simp only [List.mem_append, mem_rest]
    tauto

/-- Behind the last row of a page lies what the page left out. -/
theorem rest_behind {last : α} (hunique : (rows.map key).Nodup)
    (hlast : ((rest key cursor rows).take limit).getLast? = some last) :
    rest key (some (key last)) rows = (rest key cursor rows).drop limit := by
  have hsorted : (rest key cursor rows).Pairwise fun a b => key a < key b := rest_sorted hunique
  have hpage : page key limit cursor rows = (rest key cursor rows).take limit := rfl
  refine rest_eq hunique (hsorted.sublist (List.drop_sublist _ _)) fun row => ?_
  have hsplit := List.take_append_drop limit (rest key cursor rows)
  have hlastMem : last ∈ (rest key cursor rows).take limit := List.mem_of_getLast? hlast
  have hbeyond := (mem_rest.mp (List.mem_of_mem_take hlastMem)).2
  constructor
  · intro hrow
    rw [← hsplit] at hsorted
    have hlt := (List.pairwise_append.mp hsorted).2.2 last hlastMem row hrow
    exact ⟨(mem_rest.mp (List.mem_of_mem_drop hrow)).1, fun c hc => Option.some.inj hc ▸ hlt⟩
  · rintro ⟨hrow, hafter⟩
    have hlt : key last < key row := hafter _ rfl
    have hmem : row ∈ rest key cursor rows :=
      mem_rest.mpr ⟨hrow, fun c hc => (hbeyond c hc).trans hlt⟩
    rw [← hsplit] at hmem
    rcases List.mem_append.mp hmem with htaken | hdropped
    · have hle := le_of_mem_page hunique hlast htaken
      omega
    · exact hdropped

/-! ### Pages that fetch one row more -/

/-- The shown rows, and the cursor behind them when there is one more. -/
def overfetched (key : α → ℤ) (limit : ℕ) (cursor : Option ℤ) (rows : List α) :
    List α × Option ℤ :=
  let found := page key (limit + 1) cursor rows
  let visible := found.take limit
  (visible, if limit < found.length then visible.getLast?.map key else none)

theorem overfetched_rows :
    (overfetched key limit cursor rows).1 = (rest key cursor rows).take limit := by
  show ((rest key cursor rows).take (limit + 1)).take limit = _
  rw [List.take_take, min_eq_left (Nat.le_succ limit)]

theorem overfetched_next : (overfetched key limit cursor rows).2 =
    if limit < (rest key cursor rows).length then
      ((rest key cursor rows).take limit).getLast?.map key else none := by
  have hlength : limit < (page key (limit + 1) cursor rows).length ↔
      limit < (rest key cursor rows).length := by
    rw [page, List.length_take]
    omega
  show (if limit < (page key (limit + 1) cursor rows).length then
    (overfetched key limit cursor rows).1.getLast?.map key else none) = _
  rw [overfetched_rows]
  exact if_congr hlength rfl rfl

/-- A page without a cursor shows all the rest. -/
theorem rest_of_overfetched_none (hlimit : 0 < limit)
    (h : (overfetched key limit cursor rows).2 = none) :
    (overfetched key limit cursor rows).1 = rest key cursor rows := by
  rw [overfetched_rows]
  rw [overfetched_next] at h
  apply List.take_of_length_le
  by_contra hlong
  rw [if_pos (by omega), Option.map_eq_none_iff, List.getLast?_eq_none_iff,
    List.take_eq_nil_iff] at h
  rcases h with h | h
  · omega
  · rw [h] at hlong
    exact hlong (Nat.zero_le _)

theorem overfetched_some {c : ℤ} (h : (overfetched key limit cursor rows).2 = some c) :
    limit < (rest key cursor rows).length ∧ ∃ last,
      ((rest key cursor rows).take limit).getLast? = some last ∧ key last = c := by
  rw [overfetched_next] at h
  split_ifs at h with hlong
  exact ⟨hlong, Option.map_eq_some_iff.mp h⟩

/-! ### Readers -/

/-- A reader that reads one page and at most `further` more, the n-th from the n-th table: the rows
that it has seen, and the cursor behind them unless it has stopped. -/
def readPages (key : α → ℤ) (limit : ℕ) (tables : ℕ → List α) :
    ℕ → ℕ → Option ℤ → List α × Option ℤ
  | 0, n, cursor => overfetched key limit cursor (tables n)
  | further + 1, n, cursor =>
    let shown := overfetched key limit cursor (tables n)
    match shown.2 with
    | none => shown
    | some c =>
      let later := readPages key limit tables further (n + 1) (some c)
      (shown.1 ++ later.1, later.2)

/-- Tables with unique keys to which rows are appended behind all others. -/
structure Grows (key : α → ℤ) (tables : ℕ → List α) : Prop where
  unique : ∀ n, ((tables n).map key).Nodup
  step : ∀ n, ∃ added, tables (n + 1) = tables n ++ added ∧ AllBehind key (tables n) added

theorem Grows.later {tables : ℕ → List α} (h : Grows key tables) {n m : ℕ} (hle : n ≤ m) :
    ∃ added, tables m = tables n ++ added ∧ AllBehind key (tables n) added := by
  induction m, hle using Nat.le_induction with
  | base => exact ⟨[], (List.append_nil _).symm, fun _ _ _ hb => absurd hb List.not_mem_nil⟩
  | succ m _ ih =>
    obtain ⟨added, hadded, hbehind⟩ := ih
    obtain ⟨next, hnext, hnextBehind⟩ := h.step m
    refine ⟨added ++ next, by rw [hnext, hadded, List.append_assoc], fun a ha b hb => ?_⟩
    rcases List.mem_append.mp hb with hb | hb
    · exact hbehind a ha b hb
    · exact hnextBehind a (hadded ▸ List.mem_append_left _ ha) b hb

/-- The rows beyond a cursor come first in every later table. -/
theorem Grows.rest_later {tables : ℕ → List α} (h : Grows key tables) (cursor : Option ℤ) {n m : ℕ}
    (hle : n ≤ m) : ∃ more, rest key cursor (tables m) = rest key cursor (tables n) ++ more := by
  obtain ⟨added, hadded, hbehind⟩ := h.later hle
  have hunique := h.unique m
  rw [hadded] at hunique ⊢
  exact ⟨_, rest_append hunique hbehind⟩

/-- A full page of a table is one of every later table, and the rest of it lies behind. -/
theorem Grows.page_later {tables : ℕ → List α} (h : Grows key tables) {n m : ℕ} (hle : n ≤ m)
    {c : ℤ} (hshown : (overfetched key limit cursor (tables n)).2 = some c) :
    (overfetched key limit cursor (tables n)).1 = (rest key cursor (tables m)).take limit ∧
      rest key (some c) (tables m) = (rest key cursor (tables m)).drop limit := by
  obtain ⟨hlong, last, hlast, rfl⟩ := overfetched_some hshown
  obtain ⟨more, hmore⟩ := h.rest_later cursor hle
  have htake : (rest key cursor (tables m)).take limit =
      (rest key cursor (tables n)).take limit := by
    rw [hmore, List.take_append_of_le_length hlong.le]
  rw [overfetched_rows, htake]
  rw [← htake] at hlast
  exact ⟨rfl, rest_behind (h.unique m) hlast⟩

/-- A reader that has stopped has seen the rows of the table at its last read; one that goes on has
seen as many of the first ones as fit on its pages, and there are more. -/
theorem Grows.readPages_spec {tables : ℕ → List α} (h : Grows key tables) (hlimit : 0 < limit)
    (further n : ℕ) (cursor : Option ℤ) :
    ((readPages key limit tables further n cursor).2 = none ∧ ∃ m, n ≤ m ∧ m ≤ n + further ∧
      (readPages key limit tables further n cursor).1 = rest key cursor (tables m)) ∨
    ((readPages key limit tables further n cursor).2 ≠ none ∧
      (further + 1) * limit < (rest key cursor (tables (n + further))).length ∧
      (readPages key limit tables further n cursor).1 =
        (rest key cursor (tables (n + further))).take ((further + 1) * limit)) := by
  -- induction on the pages that may still be read
  induction further generalizing n cursor with
  | zero =>
    show ((overfetched key limit cursor (tables n)).2 = none ∧ _) ∨ _
    cases hshown : (overfetched key limit cursor (tables n)).2 with
    | none => exact .inl ⟨rfl, n, le_rfl, le_rfl, rest_of_overfetched_none hlimit hshown⟩
    | some c =>
      obtain ⟨hlong, -⟩ := overfetched_some hshown
      refine .inr ⟨?_, ?_, ?_⟩
      · show (overfetched key limit cursor (tables n)).2 ≠ none
        rw [hshown]
        exact Option.some_ne_none c
      · rwa [Nat.zero_add, Nat.one_mul]
      · rw [Nat.zero_add, Nat.one_mul]
        exact overfetched_rows
  | succ further ih =>
    cases hshown : (overfetched key limit cursor (tables n)).2 with
    | none =>
      have hread : readPages key limit tables (further + 1) n cursor =
          overfetched key limit cursor (tables n) := by
        simp only [readPages, hshown]
      rw [hread]
      exact .inl ⟨hshown, n, le_rfl, by omega, rest_of_overfetched_none hlimit hshown⟩
    | some c =>
      have hread : readPages key limit tables (further + 1) n cursor =
          ((overfetched key limit cursor (tables n)).1 ++
            (readPages key limit tables further (n + 1) (some c)).1,
          (readPages key limit tables further (n + 1) (some c)).2) := by
        simp only [readPages, hshown]
      rw [hread]
      rcases ih (n + 1) (some c) with ⟨hnext, m, hlow, hhigh, hrows⟩ | ⟨hnext, hlong, hrows⟩
      · -- appends come after the page, so it is a prefix of the later table
        obtain ⟨hpage, hrest⟩ := h.page_later (n := n) (m := m) (by omega) hshown
        refine .inl ⟨hnext, m, by omega, by omega, ?_⟩
        show (overfetched key limit cursor (tables n)).1 ++ _ = _
        rw [hrows, hpage, hrest, List.take_append_drop]
      · -- the last read is the same one, counted from the first page
        rw [show n + 1 + further = n + (further + 1) by omega] at hlong hrows
        obtain ⟨hpage, hrest⟩ := h.page_later (n := n) (m := n + (further + 1)) (by omega) hshown
        rw [hrest, List.length_drop] at hlong
        have hcount : (further + 1 + 1) * limit = limit + (further + 1) * limit := by
          rw [Nat.succ_mul (further + 1), Nat.add_comm]
        refine .inr ⟨hnext, by omega, ?_⟩
        show (overfetched key limit cursor (tables n)).1 ++ _ = _
        rw [hrows, hpage, hrest, hcount, List.take_add]

end Library.Paging
