import Mathlib.Data.List.Dedup
import Mathlib.Data.List.Nodup
import Mathlib.Data.List.Perm.Basic
import Mathlib.Data.List.Perm.Lattice
import Mathlib.Data.List.Sort
import Mathlib.Algebra.BigOperators.Group.List.Basic
import Mathlib.Tactic.Abel

/-!
# Insertion-ordered tables

A table is a list of rows with a key function; its keys are pairwise distinct.  `assign` is the
assignment `d[key] = row` of an insertion-ordered dictionary: it replaces the row with that key
where it stands, and appends the row when the key is new.  `update` assigns a list of changes in
order.

* `mem_update`: the rows after an update are the changes and the rows whose keys did not change.
* `sum_assign`: an assignment changes a sum by the difference at its key.
* `update_update`: two updates in a row are one update by the updated changes.
* `update_map`: updates commute with a map that keeps apart the same keys.
* `sum_sumAt_count`, `sum_sumAt`: the sums over the rows of each key add up to the sum over all
  rows.
* `sum_eq_of_sumAt`: rows with the same sums over every key.
-/

namespace Library.Keyed

variable {α κ : Type*} [DecidableEq κ] (key : α → κ)

/-- The dictionary assignment `d[key row] = row`. -/
def assign (rows : List α) (row : α) : List α :=
  if key row ∈ rows.map key then rows.map (fun old => if key old = key row then row else old)
  else rows ++ [row]

/-- The dictionary update by a list of rows, in order. -/
def update (rows changes : List α) : List α :=
  changes.foldl (assign key) rows

/-- The dictionary `{key row: row for row in rows}`, as its values in insertion order. -/
def ofList (rows : List α) : List α :=
  update key [] rows

/-- The row with the given key. -/
def lookup (rows : List α) (k : κ) : Option α :=
  rows.find? (fun row => key row = k)

/-! ### Assignment -/

theorem assign_of_mem {rows : List α} {row : α} (h : key row ∈ rows.map key) :
    assign key rows row = rows.map (fun old => if key old = key row then row else old) :=
  if_pos h

theorem assign_of_not_mem {rows : List α} {row : α} (h : key row ∉ rows.map key) :
    assign key rows row = rows ++ [row] :=
  if_neg h

/-- Rows whose keys differ from the assigned one stay as they are. -/
theorem map_replace_of_not_mem {rows : List α} {row : α} (h : key row ∉ rows.map key) :
    rows.map (fun old => if key old = key row then row else old) = rows := by
  refine (List.map_congr_left fun old hold => ?_).trans (List.map_id rows)
  have hne : key old ≠ key row := fun hk => h (hk ▸ List.mem_map_of_mem hold)
  exact if_neg hne

/-- Assigning a row of the table changes nothing. -/
theorem assign_of_row_mem {rows : List α} (h : (rows.map key).Nodup) {row : α} (hrow : row ∈ rows) :
    assign key rows row = rows := by
  rw [assign_of_mem key (List.mem_map_of_mem hrow)]
  refine (List.map_congr_left fun old hold => ?_).trans (List.map_id rows)
  by_cases hkey : key old = key row
  · rw [if_pos hkey]
    exact List.inj_on_of_nodup_map h hrow hold hkey.symm
  · rw [if_neg hkey]
    rfl

theorem mem_assign {rows : List α} {row a : α} :
    a ∈ assign key rows row ↔ a = row ∨ (a ∈ rows ∧ key a ≠ key row) := by
  unfold assign
  split_ifs with h
  · simp only [List.mem_map] at h ⊢
    constructor
    · rintro ⟨old, hold, rfl⟩
      by_cases hk : key old = key row
      · simp [hk]
      · simp [hk, hold]
    · rintro (rfl | ⟨ha, hk⟩)
      · obtain ⟨old, hold, hk⟩ := h
        exact ⟨old, hold, by simp [hk]⟩
      · exact ⟨a, ha, by simp [hk]⟩
  · simp only [List.mem_append, List.mem_singleton]
    constructor
    · rintro (ha | rfl)
      · exact .inr ⟨ha, fun hk => h (hk ▸ List.mem_map_of_mem ha)⟩
      · exact .inl rfl
    · rintro (rfl | ⟨ha, -⟩)
      · exact .inr rfl
      · exact .inl ha

theorem map_key_assign (rows : List α) (row : α) :
    (assign key rows row).map key =
      if key row ∈ rows.map key then rows.map key else rows.map key ++ [key row] := by
  unfold assign
  split_ifs with h
  · rw [List.map_map]
    refine List.map_congr_left fun old _ => ?_
    by_cases hk : key old = key row <;> simp [hk]
  · simp

theorem nodup_assign {rows : List α} {row : α} (h : (rows.map key).Nodup) :
    ((assign key rows row).map key).Nodup := by
  rw [map_key_assign]
  split_ifs with hk
  · exact h
  · exact List.Nodup.append h (List.nodup_singleton _) (by simpa [List.disjoint_singleton] using hk)

theorem mem_map_key_assign {rows : List α} {row : α} {k : κ} :
    k ∈ (assign key rows row).map key ↔ k ∈ rows.map key ∨ k = key row := by
  rw [map_key_assign]
  split_ifs with h
  · constructor
    · exact .inl
    · rintro (hk | rfl)
      exacts [hk, h]
  · simp

/-- A later assignment to the same key wins. -/
theorem assign_assign_of_key_eq {rows : List α} {a b : α} (h : key a = key b) :
    assign key (assign key rows a) b = assign key rows b := by
  have hmem : key b ∈ (assign key rows a).map key := by
    rw [mem_map_key_assign]
    exact .inr h.symm
  rw [assign_of_mem key hmem]
  by_cases hb : key b ∈ rows.map key
  · rw [assign_of_mem key hb, assign_of_mem key (h ▸ hb), List.map_map]
    refine List.map_congr_left fun old _ => ?_
    by_cases hk : key old = key b <;> simp [h, hk]
  · rw [assign_of_not_mem key hb, assign_of_not_mem key (h ▸ hb), List.map_append,
      map_replace_of_not_mem key hb]
    simp [h]

/-- Assignments to distinct keys commute when the first key is already present. -/
theorem assign_comm {rows : List α} {a b : α} (hne : key a ≠ key b)
    (ha : key a ∈ rows.map key) :
    assign key (assign key rows a) b = assign key (assign key rows b) a := by
  have hab : key a ∈ (assign key rows b).map key := by
    rw [mem_map_key_assign]
    exact .inl ha
  have hkeys : (assign key rows a).map key = rows.map key := by
    rw [map_key_assign, if_pos ha]
  by_cases hb : key b ∈ rows.map key
  · rw [assign_of_mem key (hkeys ▸ hb), assign_of_mem key hab, assign_of_mem key ha,
      assign_of_mem key hb, List.map_map, List.map_map]
    refine List.map_congr_left fun old _ => ?_
    by_cases hoa : key old = key a
    · simp [hoa, hne]
    · by_cases hob : key old = key b
      · simp [hob, Ne.symm hne]
      · simp [hoa, hob]
  · rw [assign_of_not_mem key (hkeys ▸ hb), assign_of_mem key hab, assign_of_mem key ha,
      assign_of_not_mem key hb, List.map_append]
    simp [Ne.symm hne]

/-! ### Update -/

@[simp] theorem update_nil (rows : List α) : update key rows [] = rows := rfl

@[simp] theorem update_cons (rows changes : List α) (row : α) :
    update key rows (row :: changes) = update key (assign key rows row) changes := rfl

/-- Updating by rows of the table changes nothing. -/
theorem update_of_subset {rows changes : List α} (h : (rows.map key).Nodup)
    (hsubset : changes ⊆ rows) : update key rows changes = rows := by
  induction changes with
  | nil => rfl
  | cons row changes ih =>
    rw [List.cons_subset] at hsubset
    rw [update_cons, assign_of_row_mem key h hsubset.1, ih hsubset.2]

theorem update_append (rows xs ys : List α) :
    update key rows (xs ++ ys) = update key (update key rows xs) ys :=
  List.foldl_append ..

theorem nodup_update {rows : List α} (changes : List α) (h : (rows.map key).Nodup) :
    ((update key rows changes).map key).Nodup := by
  induction changes generalizing rows with
  | nil => exact h
  | cons row changes ih => exact ih (nodup_assign key h)

theorem nodup_ofList (rows : List α) : ((ofList key rows).map key).Nodup :=
  nodup_update key rows List.nodup_nil

theorem mem_map_key_update {rows changes : List α} {k : κ} :
    k ∈ (update key rows changes).map key ↔ k ∈ rows.map key ∨ k ∈ changes.map key := by
  induction changes generalizing rows with
  | nil => simp
  | cons row changes ih =>
    rw [update_cons, ih, mem_map_key_assign, List.map_cons, List.mem_cons, or_assoc]

theorem mem_update_of_mem {rows changes : List α} {a : α} (h : a ∈ update key rows changes) :
    a ∈ changes ∨ (a ∈ rows ∧ key a ∉ changes.map key) := by
  induction changes generalizing rows with
  | nil => exact .inr ⟨h, by simp⟩
  | cons row changes ih =>
    rcases ih h with hc | ⟨hr, hk⟩
    · exact .inl (List.mem_cons_of_mem _ hc)
    · rcases (mem_assign key).mp hr with rfl | ⟨ha, hne⟩
      · exact .inl List.mem_cons_self
      · exact .inr ⟨ha, by simp [hne, hk]⟩

theorem mem_update {rows changes : List α} (hc : (changes.map key).Nodup) {a : α} :
    a ∈ update key rows changes ↔ a ∈ changes ∨ (a ∈ rows ∧ key a ∉ changes.map key) := by
  refine ⟨mem_update_of_mem key, ?_⟩
  induction changes generalizing rows with
  | nil => simp
  | cons row changes ih =>
    rw [List.map_cons, List.nodup_cons] at hc
    rw [update_cons]
    rintro (ha | ⟨ha, hk⟩)
    · rcases List.mem_cons.mp ha with rfl | ha
      · exact ih hc.2 (.inr ⟨(mem_assign key).mpr (.inl rfl), hc.1⟩)
      · exact ih hc.2 (.inl ha)
    · rw [List.map_cons, List.mem_cons, not_or] at hk
      exact ih hc.2 (.inr ⟨(mem_assign key).mpr (.inr ⟨ha, hk.1⟩), hk.2⟩)

theorem ofList_of_nodup {rows : List α} (h : (rows.map key).Nodup) : ofList key rows = rows := by
  suffices hgen : ∀ done : List α, (∀ a ∈ rows, key a ∉ done.map key) →
      update key done rows = done ++ rows by
    simpa [ofList] using hgen [] (by simp)
  induction rows with
  | nil => simp
  | cons row rows ih =>
    intro done hdone
    rw [List.map_cons, List.nodup_cons] at h
    rw [update_cons, assign_of_not_mem key (hdone row List.mem_cons_self), ih h.2 (done ++ [row]),
      List.append_assoc, List.singleton_append]
    intro a ha
    rw [List.map_append, List.mem_append, not_or]
    refine ⟨hdone a (List.mem_cons_of_mem _ ha), ?_⟩
    simp only [List.map_cons, List.map_nil, List.mem_singleton]
    exact fun hk => h.1 (hk ▸ List.mem_map_of_mem ha)

theorem mem_of_mem_ofList {rows : List α} {a : α} (h : a ∈ ofList key rows) : a ∈ rows := by
  rcases mem_update_of_mem key h with ha | ⟨ha, -⟩
  · exact ha
  · simp at ha

theorem mem_map_key_ofList {rows : List α} {k : κ} :
    k ∈ (ofList key rows).map key ↔ k ∈ rows.map key := by
  rw [ofList, mem_map_key_update]
  simp

/-- An assignment to a key that the later changes leave alone can be made last. -/
theorem update_assign {rows changes : List α} {row : α} (hr : key row ∈ rows.map key)
    (hc : key row ∉ changes.map key) :
    update key (assign key rows row) changes = assign key (update key rows changes) row := by
  induction changes generalizing rows with
  | nil => rfl
  | cons change changes ih =>
    rw [List.map_cons, List.mem_cons, not_or] at hc
    have hmem : key row ∈ (assign key rows change).map key :=
      (mem_map_key_assign key).mpr (.inl hr)
    rw [update_cons, update_cons, assign_comm key hc.1 hr, ih hmem hc.2]

theorem update_assign_changes {rows changes : List α} (hc : (changes.map key).Nodup) (row : α) :
    update key rows (assign key changes row) = assign key (update key rows changes) row := by
  by_cases hk : key row ∈ changes.map key
  · obtain ⟨old, hold, hkey⟩ := List.mem_map.mp hk
    obtain ⟨before, after, rfl⟩ := List.append_of_mem hold
    rw [List.map_append, List.map_cons] at hc
    have hbefore : key row ∉ before.map key := by
      intro hb
      exact (List.nodup_append.mp hc).2.2 _ hb _ (hkey ▸ List.mem_cons_self) rfl
    have hafter : key row ∉ after.map key :=
      hkey ▸ (List.nodup_cons.mp (List.nodup_append.mp hc).2.1).1
    have hassign : assign key (before ++ old :: after) row = before ++ row :: after := by
      rw [assign_of_mem key hk, List.map_append, List.map_cons, map_replace_of_not_mem key hbefore,
        map_replace_of_not_mem key hafter, if_pos hkey]
    have hlast : update key (assign key (update key rows before) row) after =
        update key (assign key (assign key (update key rows before) old) row) after := by
      rw [assign_assign_of_key_eq key hkey]
    rw [hassign, update_append, update_append, update_cons, update_cons, hlast]
    exact update_assign key ((mem_map_key_assign key).mpr (.inr hkey.symm)) hafter
  · rw [assign_of_not_mem key hk, update_append]
    rfl

/-- Two updates in a row are one update by the updated changes. -/
theorem update_update {rows first second : List α} (hf : (first.map key).Nodup) :
    update key (update key rows first) second = update key rows (update key first second) := by
  induction second generalizing first with
  | nil => rfl
  | cons row second ih =>
    rw [update_cons, update_cons, ← ih (nodup_assign key hf), update_assign_changes key hf]

/-! ### Images -/

section map

variable {β κ' : Type*} [DecidableEq κ'] {key' : β → κ'} {g : α → β}

/-- Assignments commute with a map that keeps apart the same keys. -/
theorem assign_map (hkey : ∀ a b, key' (g a) = key' (g b) ↔ key a = key b) (rows : List α) (row : α) :
    assign key' (rows.map g) (g row) = (assign key rows row).map g := by
  have hmem : key' (g row) ∈ (rows.map g).map key' ↔ key row ∈ rows.map key := by
    simp only [List.mem_map, exists_exists_and_eq_and, hkey]
  by_cases hk : key row ∈ rows.map key
  · rw [assign_of_mem key hk, assign_of_mem key' (hmem.mpr hk), List.map_map, List.map_map]
    refine List.map_congr_left fun old _ => ?_
    by_cases hold : key old = key row
    · simp [hold, (hkey old row).mpr hold]
    · simp [hold, mt (hkey old row).mp hold]
  · rw [assign_of_not_mem key hk, assign_of_not_mem key' (mt hmem.mp hk), List.map_append]
    rfl

theorem update_map (hkey : ∀ a b, key' (g a) = key' (g b) ↔ key a = key b)
    (rows changes : List α) :
    update key' (rows.map g) (changes.map g) = (update key rows changes).map g := by
  induction changes generalizing rows with
  | nil => rfl
  | cons row changes ih =>
    rw [List.map_cons, update_cons, update_cons, assign_map key hkey, ih]

theorem ofList_map (hkey : ∀ a b, key' (g a) = key' (g b) ↔ key a = key b) (rows : List α) :
    ofList key' (rows.map g) = (ofList key rows).map g :=
  update_map key hkey [] rows

end map

/-- The changes can be made into a dictionary first. -/
theorem update_ofList (rows changes : List α) :
    update key rows (ofList key changes) = update key rows changes :=
  (@update_update _ _ _ key rows [] changes List.nodup_nil).symm

/-! ### Lookup -/

theorem lookup_eq_some {rows : List α} (h : (rows.map key).Nodup) {k : κ} {a : α} :
    lookup key rows k = some a ↔ a ∈ rows ∧ key a = k := by
  constructor
  · intro hl
    exact ⟨List.mem_of_find?_eq_some hl, by simpa using List.find?_some hl⟩
  · rintro ⟨ha, hk⟩
    cases hl : lookup key rows k with
    | none =>
      have := List.find?_eq_none.mp hl a ha
      simp [hk] at this
    | some b =>
      have hb : b ∈ rows := List.mem_of_find?_eq_some hl
      have hbk : key b = k := by simpa using List.find?_some hl
      rw [List.inj_on_of_nodup_map h ha hb (hk.trans hbk.symm)]

theorem mem_of_lookup {rows : List α} {k : κ} {a : α} (h : lookup key rows k = some a) :
    a ∈ rows ∧ key a = k :=
  ⟨List.mem_of_find?_eq_some h, by simpa using List.find?_some h⟩

theorem lookup_isSome_iff {rows : List α} {k : κ} :
    (lookup key rows k).isSome ↔ k ∈ rows.map key := by
  rw [lookup, List.find?_isSome, List.mem_map]
  simp

theorem lookup_eq_none {rows : List α} {k : κ} : lookup key rows k = none ↔ k ∉ rows.map key := by
  rw [← lookup_isSome_iff, Bool.not_eq_true, Option.isSome_eq_false_iff, Option.isNone_iff_eq_none]

theorem lookup_assign (rows : List α) (row : α) (k : κ) :
    lookup key (assign key rows row) k = if key row = k then some row else lookup key rows k := by
  by_cases hmem : key row ∈ rows.map key
  · rw [assign_of_mem key hmem, lookup, List.find?_map]
    by_cases hk : key row = k
    · subst hk
      obtain ⟨old, hold, hkey⟩ := List.mem_map.mp hmem
      rw [if_pos rfl]
      cases hfind : rows.find? ((fun a => decide (key a = key row)) ∘
          fun old => if key old = key row then row else old) with
      | none =>
        have := List.find?_eq_none.mp hfind old hold
        simp [hkey] at this
      | some found =>
        have hfound := List.find?_some hfind
        by_cases hf : key found = key row
        · simp [hf]
        · simp [hf] at hfound
    · rw [if_neg hk]
      have hsame : rows.find? ((fun a => decide (key a = k)) ∘
          fun old => if key old = key row then row else old) = lookup key rows k := by
        refine congrArg (rows.find? ·) (funext fun old => ?_)
        by_cases ho : key old = key row <;> simp [ho, hk]
      rw [hsame]
      cases hfind : lookup key rows k with
      | none => rfl
      | some found =>
        have hfound : key found = k := by simpa using List.find?_some hfind
        simp [hfound, Ne.symm hk]
  · rw [assign_of_not_mem key hmem, lookup, List.find?_append]
    by_cases hk : key row = k
    · subst hk
      have hnone : rows.find? (fun a => decide (key a = key row)) = none := by
        rw [List.find?_eq_none]
        intro a ha
        have hne : key a ≠ key row := fun hkey => hmem (hkey ▸ List.mem_map_of_mem ha)
        simpa using hne
      simp [hnone]
    · simp [hk, lookup]

/-! ### Sums over the rows -/

/-- What a row of an optional lookup contributes to a sum. -/
def valueAt {M : Type*} [AddCommMonoid M] (f : α → M) (rows : List α) (k : κ) : M :=
  ((lookup key rows k).map f).getD 0

theorem valueAt_of_mem {M : Type*} [AddCommMonoid M] (f : α → M) {rows : List α}
    (hr : (rows.map key).Nodup) {row : α} (h : row ∈ rows) : valueAt key f rows (key row) = f row := by
  rw [valueAt, (lookup_eq_some key hr).mpr ⟨h, rfl⟩, Option.map_some, Option.getD_some]

theorem valueAt_of_not_mem {M : Type*} [AddCommMonoid M] (f : α → M) {rows : List α} {k : κ}
    (h : k ∉ rows.map key) : valueAt key f rows k = 0 := by
  rw [← lookup_isSome_iff, Bool.not_eq_true, Option.isSome_eq_false_iff, Option.isNone_iff_eq_none]
    at h
  rw [valueAt, h, Option.map_none, Option.getD_none]

/-- An assignment changes a sum by the difference at its key. -/
theorem sum_assign {M : Type*} [AddCommGroup M] (f : α → M) {rows : List α}
    (hr : (rows.map key).Nodup) (row : α) :
    ((assign key rows row).map f).sum =
      (rows.map f).sum + (f row - valueAt key f rows (key row)) := by
  by_cases hk : key row ∈ rows.map key
  · obtain ⟨old, hold, hkey⟩ := List.mem_map.mp hk
    rw [← hkey, valueAt_of_mem key f hr hold, assign_of_mem key hk]
    obtain ⟨before, after, rfl⟩ := List.append_of_mem hold
    rw [List.map_append, List.map_cons] at hr
    have hbefore : key row ∉ before.map key := by
      intro hb
      exact (List.nodup_append.mp hr).2.2 _ hb _ (hkey ▸ List.mem_cons_self) rfl
    have hafter : key row ∉ after.map key :=
      hkey ▸ (List.nodup_cons.mp (List.nodup_append.mp hr).2.1).1
    rw [List.map_append, List.map_cons, map_replace_of_not_mem key hbefore,
      map_replace_of_not_mem key hafter, if_pos hkey]
    simp only [List.map_append, List.map_cons, List.sum_append, List.sum_cons]
    abel
  · rw [assign_of_not_mem key hk, valueAt_of_not_mem key f hk]
    simp

/-! ### Sums over the rows of one key -/

section sumAt

variable {M : Type*} [AddCommMonoid M] (value : α → M)

/-- The sum over the rows with the given key. -/
def sumAt (rows : List α) (k : κ) : M :=
  ((rows.filter fun row => key row = k).map value).sum

@[simp] theorem sumAt_nil (k : κ) : sumAt key value [] k = 0 := rfl

@[simp] theorem sumAt_append (rows rows' : List α) (k : κ) :
    sumAt key value (rows ++ rows') k = sumAt key value rows k + sumAt key value rows' k := by
  simp [sumAt]

@[simp] theorem sumAt_cons (row : α) (rows : List α) (k : κ) :
    sumAt key value (row :: rows) k =
      (if key row = k then value row else 0) + sumAt key value rows k := by
  by_cases hk : key row = k <;> simp [sumAt, hk]

theorem sumAt_perm {rows rows' : List α} (h : rows.Perm rows') (k : κ) :
    sumAt key value rows k = sumAt key value rows' k :=
  ((h.filter _).map _).sum_eq

theorem sumAt_of_not_mem {rows : List α} {k : κ} (h : k ∉ rows.map key) :
    sumAt key value rows k = 0 := by
  have hnone : (rows.filter fun row => key row = k) = [] := by
    rw [List.filter_eq_nil_iff]
    intro row hrow hkey
    exact h (List.mem_map.mpr ⟨row, hrow, of_decide_eq_true hkey⟩)
  rw [sumAt, hnone, List.map_nil, List.sum_nil]

/-- With distinct keys the sum over a key is the value of its row. -/
theorem sumAt_of_mem {rows : List α} (h : (rows.map key).Nodup) {row : α} (hrow : row ∈ rows) :
    sumAt key value rows (key row) = value row := by
  induction rows with
  | nil => cases hrow
  | cons first rows ih =>
    rw [List.map_cons, List.nodup_cons] at h
    rw [sumAt_cons]
    rcases List.mem_cons.mp hrow with rfl | hmem
    · rw [if_pos rfl, sumAt_of_not_mem key value h.1, add_zero]
    · have hne : key first ≠ key row := fun hkey => h.1 (hkey ▸ List.mem_map_of_mem hmem)
      rw [if_neg hne, zero_add, ih h.2 hmem]

/-- The sums over a list of keys count each row as often as its key occurs there. -/
theorem sum_sumAt_count (rows : List α) (keys : List κ) :
    (keys.map (sumAt key value rows)).sum =
      (rows.map fun row => keys.count (key row) • value row).sum := by
  induction rows with
  | nil => exact List.sum_eq_zero fun _ h => (List.mem_map.mp h).elim fun _ hk => hk.2.symm
  | cons row rows ih =>
    have hone : (keys.map fun k => if key row = k then value row else 0).sum =
        keys.count (key row) • value row := by
      rw [List.sum_map_eq_nsmul_single (key row) _ fun k hk _ => if_neg (Ne.symm hk), if_pos rfl]
    have hsplit : keys.map (sumAt key value (row :: rows)) =
        keys.map fun k => (if key row = k then value row else 0) + sumAt key value rows k :=
      List.map_congr_left fun k _ => sumAt_cons key value row rows k
    rw [hsplit, List.sum_map_add, hone, ih, List.map_cons, List.sum_cons]

/-- The sums over all keys add up to the sum over the rows. -/
theorem sum_sumAt {rows : List α} {keys : List κ} (hkeys : keys.Nodup)
    (hall : ∀ row ∈ rows, key row ∈ keys) :
    (keys.map (sumAt key value rows)).sum = (rows.map value).sum := by
  rw [sum_sumAt_count]
  refine congrArg List.sum (List.map_congr_left fun row hrow => ?_)
  rw [List.count_eq_one_of_mem hkeys (hall row hrow), one_nsmul]

/-- Rows whose sums over every key agree have the same sum. -/
theorem sum_eq_of_sumAt {rows rows' : List α}
    (h : ∀ k, sumAt key value rows k = sumAt key value rows' k) :
    (rows.map value).sum = (rows'.map value).sum := by
  have hkeys : (rows.map key ++ rows'.map key).dedup.Nodup := List.nodup_dedup _
  have hrows : ∀ row ∈ rows, key row ∈ (rows.map key ++ rows'.map key).dedup := fun row hrow =>
    List.mem_dedup.mpr (List.mem_append_left _ (List.mem_map_of_mem hrow))
  have hrows' : ∀ row ∈ rows', key row ∈ (rows.map key ++ rows'.map key).dedup := fun row hrow =>
    List.mem_dedup.mpr (List.mem_append_right _ (List.mem_map_of_mem hrow))
  rw [← sum_sumAt key value hkeys hrows, ← sum_sumAt key value hkeys hrows']
  exact congrArg List.sum (List.map_congr_left fun k _ => h k)

end sumAt

/-- The value at a key of distinct rows is the sum over its rows. -/
theorem valueAt_eq_sumAt {M : Type*} [AddCommMonoid M] (f : α → M) {rows : List α}
    (h : (rows.map key).Nodup) (k : κ) : valueAt key f rows k = sumAt key f rows k := by
  by_cases hk : k ∈ rows.map key
  · obtain ⟨row, hrow, rfl⟩ := List.mem_map.mp hk
    rw [valueAt_of_mem key f h hrow, sumAt_of_mem key f h hrow]
  · rw [valueAt_of_not_mem key f hk, sumAt_of_not_mem key f hk]

end Library.Keyed
