import JiraSimulator.Library.Ordering

/-!
# Pages behind a cursor

A page of a table holds the first rows, in the order of an integer key, whose key lies beyond a
cursor.

* `page_sorted`: the keys of a page increase strictly.
* `mem_page_of_le`: a page holds every row beyond the cursor up to its last one.
-/

namespace Library.Paging

variable {α : Type} {key : α → ℤ} {limit : ℕ} {cursor : Option ℤ} {rows : List α} {row last : α}

/-- The key lies beyond the cursor. -/
def Beyond (cursor : Option ℤ) (k : ℤ) : Prop :=
  ∀ c ∈ cursor, c < k

instance (cursor : Option ℤ) (k : ℤ) : Decidable (Beyond cursor k) :=
  inferInstanceAs (Decidable (∀ c ∈ cursor, c < k))

/-- The rows beyond the cursor, in the order of their keys. -/
def rest (key : α → ℤ) (cursor : Option ℤ) (rows : List α) : List α :=
  Ordering.sortOn (fun row => [key row]) (rows.filter fun row => Beyond cursor (key row))

def page (key : α → ℤ) (limit : ℕ) (cursor : Option ℤ) (rows : List α) : List α :=
  (rest key cursor rows).take limit

theorem mem_rest : row ∈ rest key cursor rows ↔ row ∈ rows ∧ Beyond cursor (key row) := by
  rw [rest, Ordering.mem_sortOn, List.mem_filter, decide_eq_true_eq]

theorem rest_sorted (hunique : (rows.map key).Nodup) :
    (rest key cursor rows).Pairwise fun a b => key a < key b := by
  have hsorted := Ordering.sortOn_pairwise (fun row => [key row])
    (rows.filter fun row => Beyond cursor (key row))
  have hnodup : ((rest key cursor rows).map key).Nodup := by
    refine ((Ordering.sortOn_perm _ _).map key).nodup_iff.mpr ?_
    exact hunique.sublist (List.filter_sublist.map key)
  rw [List.Nodup, List.pairwise_map] at hnodup
  refine hsorted.imp₂ (fun a b hle hne => ?_) hnodup
  simp only [Ordering.lexLe, Bool.and_true, Bool.or_eq_true, decide_eq_true_eq] at hle
  omega

theorem mem_page (h : row ∈ page key limit cursor rows) :
    row ∈ rows ∧ Beyond cursor (key row) :=
  mem_rest.mp (List.mem_of_mem_take h)

theorem page_sorted (hunique : (rows.map key).Nodup) :
    (page key limit cursor rows).Pairwise fun a b => key a < key b :=
  (rest_sorted hunique).sublist (List.take_sublist _ _)

/-- An empty page has nothing beyond the cursor. -/
theorem not_beyond_of_page_eq_nil (hlimit : 0 < limit) (h : page key limit cursor rows = [])
    (hrow : row ∈ rows) : ¬ Beyond cursor (key row) := by
  intro hbeyond
  have hmem := mem_rest.mpr ⟨hrow, hbeyond⟩
  rw [page, List.take_eq_nil_iff] at h
  rcases h with h | h
  · omega
  · rw [h] at hmem
    cases hmem

/-- A page holds every row beyond the cursor up to its last one. -/
theorem mem_page_of_le (hunique : (rows.map key).Nodup)
    (hlast : (page key limit cursor rows).getLast? = some last) (hrow : row ∈ rows)
    (hbeyond : Beyond cursor (key row)) (hle : key row ≤ key last) :
    row ∈ page key limit cursor rows := by
  have hmem := mem_rest.mpr ⟨hrow, hbeyond⟩
  have hsorted : (rest key cursor rows).Pairwise fun a b => key a < key b := rest_sorted hunique
  rw [← List.take_append_drop limit (rest key cursor rows)] at hmem hsorted
  rcases List.mem_append.mp hmem with htaken | hdropped
  · exact htaken
  · -- what the page leaves out lies behind its last row
    have hlt := (List.pairwise_append.mp hsorted).2.2 last (List.mem_of_getLast? hlast) row hdropped
    omega

/-- The rows of a page come up to its last one. -/
theorem le_of_mem_page (hunique : (rows.map key).Nodup)
    (hlast : (page key limit cursor rows).getLast? = some last)
    (hrow : row ∈ page key limit cursor rows) : key row ≤ key last := by
  have hsorted : (page key limit cursor rows).Pairwise fun a b => key a < key b :=
    page_sorted hunique
  obtain ⟨before, hbefore⟩ := List.getLast?_eq_some_iff.mp hlast
  rw [hbefore] at hsorted hrow
  rcases List.mem_append.mp hrow with hrow | hrow
  · exact ((List.pairwise_append.mp hsorted).2.2 row hrow last (List.mem_singleton_self last)).le
  · rw [List.mem_singleton.mp hrow]

end Library.Paging
