import JiraSimulator.Library.Keyed

/-!
# Tables with generated identifiers

A table holds rows with distinct identifiers, all of them below the next one that it gives out.  The
operations change rows in place, delete some, or add new ones, and each of them keeps the table well
formed.

* `Table.map`, `Table.filter`, `Table.insertAll`: the operations.
* `Table.get?_eq_some`: the rows by their identifiers.
* `Table.get?_map`, `Table.get?_filter`: what the operations do to one row.
* `Table.mem_insertAll`: the old rows and the new ones.
-/

namespace Library

/-- Rows with distinct identifiers, and the next identifier. -/
structure Table {α : Type} (key : α → ℤ) where
  rows : List α
  next : ℤ
  distinct : (rows.map key).Nodup
  below : ∀ row ∈ rows, key row < next

namespace Table

variable {α β : Type} {key : α → ℤ} (t : Table key)

/-- The table without rows. -/
def empty (key : α → ℤ) : Table key where
  rows := []
  next := 1
  distinct := .nil
  below _ h := by cases h

/-- The row with the given identifier. -/
def get? (k : ℤ) : Option α :=
  Keyed.lookup key t.rows k

/-- Each row is changed; the change keeps its identifier. -/
def map (f : α → α) (hf : ∀ row, key (f row) = key row) : Table key where
  rows := t.rows.map f
  next := t.next
  distinct := by
    have hkeys : (t.rows.map f).map key = t.rows.map key := by
      rw [List.map_map]
      exact List.map_congr_left fun row _ => hf row
    rw [hkeys]
    exact t.distinct
  below row hrow := by
    obtain ⟨old, hold, rfl⟩ := List.mem_map.mp hrow
    rw [hf]
    exact t.below old hold

/-- One row is changed. -/
def update (k : ℤ) (f : α → α) (hf : ∀ row, key (f row) = key row) : Table key :=
  t.map (fun row => if key row = k then f row else row) fun row => by
    by_cases hkey : key row = k
    · rw [if_pos hkey, hf]
    · rw [if_neg hkey]

/-- Some rows are deleted. -/
def filter (p : α → Bool) : Table key where
  rows := t.rows.filter p
  next := t.next
  distinct := t.distinct.sublist (List.filter_sublist.map key)
  below row hrow := t.below row (List.mem_of_mem_filter hrow)

/-- The new rows with their identifiers. -/
def newRows (make : β → ℤ → α) (next : ℤ) : List β → List α
  | [] => []
  | b :: bs => make b next :: newRows make (next + 1) bs

theorem newRows_key {make : β → ℤ → α} (hmake : ∀ b k, key (make b k) = k) {bs : List β}
    {next : ℤ} : ∀ row ∈ newRows make next bs, next ≤ key row ∧ key row < next + bs.length := by
  induction bs generalizing next with
  | nil => exact fun row hrow => by cases hrow
  | cons b bs ih =>
    intro row hrow
    rw [List.length_cons]
    push_cast
    rcases List.mem_cons.mp hrow with rfl | hrest
    · rw [hmake]
      omega
    · have := ih row hrest
      omega

theorem newRows_distinct {make : β → ℤ → α} (hmake : ∀ b k, key (make b k) = k) {bs : List β}
    {next : ℤ} : ((newRows make next bs).map key).Nodup := by
  induction bs generalizing next with
  | nil => exact .nil
  | cons b bs ih =>
    rw [newRows, List.map_cons, hmake, List.nodup_cons]
    refine ⟨fun hmem => ?_, ih⟩
    obtain ⟨row, hrow, hkey⟩ := List.mem_map.mp hmem
    have := (newRows_key hmake row hrow).1
    omega

/-- New rows are added, each with the next identifier. -/
def insertAll (make : β → ℤ → α) (hmake : ∀ b k, key (make b k) = k) (bs : List β) :
    Table key where
  rows := t.rows ++ newRows make t.next bs
  next := t.next + bs.length
  distinct := by
    rw [List.map_append, List.nodup_append]
    refine ⟨t.distinct, newRows_distinct hmake, ?_⟩
    rintro k hold _ hnew rfl
    obtain ⟨a, ha, rfl⟩ := List.mem_map.mp hold
    obtain ⟨b, hb, hkey⟩ := List.mem_map.mp hnew
    have hlt := t.below a ha
    have hle := (newRows_key hmake b hb).1
    omega
  below row hrow := by
    rcases List.mem_append.mp hrow with hold | hnew
    · have := t.below row hold
      omega
    · exact (newRows_key hmake row hnew).2

/-- One new row. -/
def insert (make : ℤ → α) (hmake : ∀ k, key (make k) = k) : Table key :=
  t.insertAll (fun (_ : Unit) => make) (fun _ => hmake) [()]

/-! ### Rows by their identifiers -/

variable {t}

theorem get?_eq_some {k : ℤ} {a : α} : t.get? k = some a ↔ a ∈ t.rows ∧ key a = k :=
  Keyed.lookup_eq_some key t.distinct

theorem get?_eq_none {k : ℤ} : t.get? k = none ↔ ∀ a ∈ t.rows, key a ≠ k := by
  unfold get?
  rw [Keyed.lookup_eq_none, List.mem_map]
  push Not
  rfl

theorem get?_of_mem {a : α} (h : a ∈ t.rows) : t.get? (key a) = some a :=
  get?_eq_some.mpr ⟨h, rfl⟩

theorem eq_of_key_eq {a b : α} (ha : a ∈ t.rows) (hb : b ∈ t.rows) (h : key a = key b) : a = b :=
  List.inj_on_of_nodup_map t.distinct ha hb h

/-! ### The rows of a changed table -/

theorem mem_map {f : α → α} (hf : ∀ row, key (f row) = key row) {a : α} :
    a ∈ (t.map f hf).rows ↔ ∃ b ∈ t.rows, f b = a :=
  List.mem_map

theorem mem_filter {p : α → Bool} {a : α} : a ∈ (t.filter p).rows ↔ a ∈ t.rows ∧ p a = true :=
  List.mem_filter

theorem get?_map {f : α → α} (hf : ∀ row, key (f row) = key row) {k : ℤ} :
    (t.map f hf).get? k = (t.get? k).map f := by
  cases hget : t.get? k with
  | none =>
    rw [get?_eq_none] at hget
    rw [Option.map_none, get?_eq_none]
    intro a ha
    obtain ⟨b, hb, rfl⟩ := (mem_map hf).mp ha
    rw [hf]
    exact hget b hb
  | some a =>
    obtain ⟨ha, hkey⟩ := get?_eq_some.mp hget
    rw [Option.map_some, get?_eq_some]
    exact ⟨(mem_map hf).mpr ⟨a, ha, rfl⟩, (hf a).trans hkey⟩

theorem mem_update {k : ℤ} {f : α → α} (hf : ∀ row, key (f row) = key row) {a : α} :
    a ∈ (t.update k f hf).rows ↔ ∃ b ∈ t.rows, (if key b = k then f b else b) = a :=
  List.mem_map

theorem get?_update {k k' : ℤ} {f : α → α} (hf : ∀ row, key (f row) = key row) :
    (t.update k f hf).get? k' = if k' = k then (t.get? k').map f else t.get? k' := by
  unfold update
  rw [get?_map]
  cases hget : t.get? k' with
  | none => simp
  | some a =>
    obtain ⟨-, hkey⟩ := get?_eq_some.mp hget
    rw [Option.map_some, hkey]
    split_ifs <;> rfl

theorem get?_filter {p : α → Bool} {k : ℤ} : (t.filter p).get? k = (t.get? k).filter p := by
  cases hget : t.get? k with
  | none =>
    rw [get?_eq_none] at hget
    rw [Option.filter_none, get?_eq_none]
    exact fun a ha => hget a (mem_filter.mp ha).1
  | some a =>
    obtain ⟨ha, hkey⟩ := get?_eq_some.mp hget
    by_cases hp : p a = true
    · rw [Option.filter_some, if_pos hp, get?_eq_some]
      exact ⟨mem_filter.mpr ⟨ha, hp⟩, hkey⟩
    · rw [Option.filter_some, if_neg hp, get?_eq_none]
      intro b hb hkeyb
      obtain ⟨hbmem, hpb⟩ := mem_filter.mp hb
      rw [eq_of_key_eq hbmem ha (hkeyb.trans hkey.symm)] at hpb
      exact hp hpb

theorem mem_newRows {make : β → ℤ → α} {next : ℤ} {bs : List β} {a : α}
    (h : a ∈ newRows make next bs) : ∃ b ∈ bs, ∃ k, next ≤ k ∧ a = make b k := by
  induction bs generalizing next with
  | nil => cases h
  | cons b bs ih =>
    rcases List.mem_cons.mp h with rfl | hrest
    · exact ⟨b, List.mem_cons_self, next, le_rfl, rfl⟩
    · obtain ⟨c, hc, k, hle, rfl⟩ := ih hrest
      exact ⟨c, List.mem_cons_of_mem _ hc, k, by omega, rfl⟩

theorem exists_newRows {make : β → ℤ → α} {next : ℤ} {bs : List β} {b : β} (h : b ∈ bs) :
    ∃ k, next ≤ k ∧ make b k ∈ newRows make next bs := by
  induction bs generalizing next with
  | nil => cases h
  | cons c bs ih =>
    rcases List.mem_cons.mp h with rfl | hrest
    · exact ⟨next, le_rfl, List.mem_cons_self⟩
    · obtain ⟨k, hle, hmem⟩ := ih hrest
      exact ⟨k, by omega, List.mem_cons_of_mem _ hmem⟩

theorem countP_newRows {make : β → ℤ → α} {p : α → Bool} {q : β → Bool} {next : ℤ}
    (h : ∀ b k, next ≤ k → p (make b k) = q b) (bs : List β) :
    (newRows make next bs).countP p = bs.countP q := by
  induction bs generalizing next with
  | nil => rfl
  | cons b bs ih =>
    have hrest : (newRows make (next + 1) bs).countP p = bs.countP q :=
      ih fun b k hle => h b k (by omega)
    rw [newRows, List.countP_cons, List.countP_cons, hrest, h b next le_rfl]

theorem mem_insertAll {make : β → ℤ → α} (hmake : ∀ b k, key (make b k) = k) {bs : List β}
    {a : α} (h : a ∈ (t.insertAll make hmake bs).rows) :
    a ∈ t.rows ∨ ∃ b ∈ bs, ∃ k, t.next ≤ k ∧ a = make b k :=
  (List.mem_append.mp h).imp_right mem_newRows

theorem mem_insertAll_of_mem {make : β → ℤ → α} (hmake : ∀ b k, key (make b k) = k)
    {bs : List β} {a : α} (h : a ∈ t.rows) : a ∈ (t.insertAll make hmake bs).rows :=
  List.mem_append_left _ h

theorem mem_insert {make : ℤ → α} (hmake : ∀ k, key (make k) = k) {a : α} :
    a ∈ (t.insert make hmake).rows ↔ a ∈ t.rows ∨ a = make t.next := by
  show a ∈ t.rows ++ [make t.next] ↔ _
  rw [List.mem_append, List.mem_singleton]

end Table

end Library
