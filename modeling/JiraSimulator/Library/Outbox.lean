import Mathlib.Data.List.Induction
import Mathlib.Data.Set.Insert

/-!
# Queues that are delivered in order

Entries of several groups stand in one append-only list, each group in the order of its positions.
An entry is cleared when every earlier entry of its group and everything it needs is done.
* `InOrder.append`, `InOrder.deliver`: entries that are only done when cleared are done in order.
* `Cleared.mono`: an entry that was cleared once stays cleared.
* `Grounded.mem_of_pairwise`: when entries need only earlier ones, nothing blocks the first entry.
* `mem_firsts`: the heads of the groups.
-/

namespace Library.Outbox

/-- How the entries are grouped, ordered and identified, and what each of them needs. -/
structure Discipline (α γ κ : Type*) where
  group : α → γ
  position : α → ℕ
  key : α → κ
  needs : α → List κ

variable {α γ κ : Type*} {D : Discipline α γ κ}

/-- All that has to be done before the entry is done. -/
structure Discipline.Cleared (D : Discipline α γ κ) (rows : List α) (done : Set κ) (a : α) :
    Prop where
  mem : a ∈ rows
  earlier : ∀ b ∈ rows, D.group b = D.group a → D.position b < D.position a → D.key b ∈ done
  needs : ∀ k ∈ D.needs a, k ∈ done

/-- Every entry that is done was cleared. -/
def Discipline.InOrder (D : Discipline α γ κ) (rows : List α) (done : Set κ) : Prop :=
  ∀ a ∈ rows, D.key a ∈ done → D.Cleared rows done a

/-- The added entries stand behind all others. -/
def Discipline.Behind (D : Discipline α γ κ) (rows added : List α) : Prop :=
  ∀ a ∈ rows, ∀ b ∈ added, D.position a < D.position b

theorem Cleared.mono {rows added : List α} {done done' : Set κ} {a : α}
    (h : D.Cleared rows done a) (hbehind : D.Behind rows added) (hdone : done ⊆ done') :
    D.Cleared (rows ++ added) done' a where
  mem := List.mem_append_left added h.mem
  earlier b hb hgroup hlt := by
    rcases List.mem_append.mp hb with hb | hb
    · exact hdone (h.earlier b hb hgroup hlt)
    · exact absurd hlt (Nat.lt_asymm (hbehind a h.mem b hb))
  needs k hk := hdone (h.needs k hk)

/-- Entries appended behind the others, none of which is done yet, keep the order. -/
theorem InOrder.append {rows added : List α} {done : Set κ} (h : D.InOrder rows done)
    (hbehind : D.Behind rows added) (hnew : ∀ a ∈ added, D.key a ∉ done) :
    D.InOrder (rows ++ added) done := by
  intro a ha hdone
  rcases List.mem_append.mp ha with ha | ha
  · exact Cleared.mono (h a ha hdone) hbehind Set.Subset.rfl
  · exact absurd hdone (hnew a ha)

/-- Doing a cleared entry keeps the order. -/
theorem InOrder.deliver {rows : List α} {done : Set κ} (h : D.InOrder rows done)
    (hkeys : ∀ a ∈ rows, ∀ b ∈ rows, D.key a = D.key b → a = b) {a : α}
    (ha : D.Cleared rows done a) : D.InOrder rows (insert (D.key a) done) := by
  have hgrow : ∀ b, D.Cleared rows done b → D.Cleared rows (insert (D.key a) done) b := by
    intro b hb
    have hbehind : D.Behind rows [] := by simp [Discipline.Behind]
    have hmono := Cleared.mono hb hbehind (Set.subset_insert (D.key a) done)
    rwa [List.append_nil] at hmono
  intro b hb hdone
  rcases hdone with hkey | hdone
  · exact hkeys b hb a ha.mem hkey ▸ hgrow a ha
  · exact hgrow b (h b hb hdone)

/-! ### Entries that need only earlier ones -/

/-- Every entry needs only keys that are known or that an entry before it has. -/
def Grounded (key : α → κ) (needs : α → List κ) : Set κ → List α → Prop
  | _, [] => True
  | known, a :: rows => (∀ k ∈ needs a, k ∈ known) ∧ Grounded key needs (insert (key a) known) rows

section grounded

variable {key : α → κ} {needs : α → List κ} {known known' : Set κ} {rows : List α}

theorem Grounded.mono (h : Grounded key needs known rows) (hknown : known ⊆ known') :
    Grounded key needs known' rows := by
  induction rows generalizing known known' with
  | nil => trivial
  | cons a rows ih =>
    obtain ⟨hneeds, hrows⟩ := h
    exact ⟨fun k hk => hknown (hneeds k hk), ih hrows (Set.insert_subset_insert hknown)⟩

/-- The keys of earlier entries are known to the later ones. -/
theorem grounded_append {left right : List α} : Grounded key needs known (left ++ right) ↔
    Grounded key needs known left ∧ Grounded key needs (known ∪ {k | k ∈ left.map key}) right := by
  induction left generalizing known with
  | nil => simp [Grounded]
  | cons a left ih =>
    have hkeys : insert (key a) known ∪ {k | k ∈ left.map key} =
        known ∪ {k | k ∈ (a :: left).map key} := by
      ext k
      simp only [Set.mem_union, Set.mem_insert_iff, Set.mem_ofPred_eq, List.map_cons, List.mem_cons]
      tauto
    rw [List.cons_append, Grounded, Grounded, ih, hkeys, and_assoc]

/-- Entries that need only known keys. -/
theorem grounded_of_known (h : ∀ a ∈ rows, ∀ k ∈ needs a, k ∈ known) :
    Grounded key needs known rows := by
  induction rows generalizing known with
  | nil => trivial
  | cons a rows ih =>
    rw [List.forall_mem_cons] at h
    exact ⟨h.1, ih fun b hb k hk => .inr (h.2 b hb k hk)⟩

theorem grounded_map {β : Type*} (f : β → α) {entries : List β} :
    Grounded key needs known (entries.map f) ↔
      Grounded (key ∘ f) (needs ∘ f) known entries := by
  induction entries generalizing known with
  | nil => exact Iff.rfl
  | cons b entries ih => rw [List.map_cons, Grounded, Grounded, ih]; rfl

/-- What an entry needs is known or stands before it. -/
theorem Grounded.mem_of_split (h : Grounded key needs known rows) {before after : List α} {a : α}
    (hrows : rows = before ++ a :: after) {k : κ} (hk : k ∈ needs a) :
    k ∈ known ∨ ∃ b ∈ before, key b = k := by
  rw [hrows, grounded_append] at h
  exact (h.2.1 k hk).imp_right fun hmem => List.mem_map.mp hmem

/-- In the order of the positions, what an entry needs is known or stands at a smaller position. -/
theorem Grounded.mem_of_pairwise (h : Grounded key needs known rows) {position : α → ℕ}
    (hpositions : rows.Pairwise fun a b => position a < position b) {a : α} (ha : a ∈ rows) {k : κ}
    (hk : k ∈ needs a) : k ∈ known ∨ ∃ b ∈ rows, key b = k ∧ position b < position a := by
  obtain ⟨before, after, hrows⟩ := List.append_of_mem ha
  refine (h.mem_of_split hrows hk).imp_right ?_
  rintro ⟨b, hb, hkey⟩
  rw [hrows, List.pairwise_append] at hpositions
  refine ⟨b, ?_, hkey, hpositions.2.2 b hb a List.mem_cons_self⟩
  rw [hrows]
  exact List.mem_append_left _ hb

end grounded

/-! ### The heads of the groups -/

variable [DecidableEq γ]

/-- One step of `firsts`: an entry of a new group is a head. -/
def addFirst (group : α → γ) (heads : List α) (a : α) : List α :=
  if group a ∈ heads.map group then heads else heads ++ [a]

/-- The first entry of each group, in order. -/
def firsts (group : α → γ) (rows : List α) : List α :=
  rows.foldl (addFirst group) []

theorem firsts_concat (group : α → γ) (rows : List α) (a : α) :
    firsts group (rows ++ [a]) = addFirst group (firsts group rows) a := by
  rw [firsts, List.foldl_append]
  rfl

theorem firsts_sublist (group : α → γ) (rows : List α) : (firsts group rows).Sublist rows := by
  induction rows using List.reverseRecOn with
  | nil => exact List.Sublist.slnil
  | append_singleton rows a ih =>
    rw [firsts_concat, addFirst]
    split_ifs
    · exact ih.trans (List.sublist_append_left rows [a])
    · exact ih.append_right [a]

/-- Every group has a head. -/
theorem mem_map_firsts (group : α → γ) (rows : List α) (g : γ) :
    g ∈ (firsts group rows).map group ↔ g ∈ rows.map group := by
  induction rows using List.reverseRecOn with
  | nil => rfl
  | append_singleton rows a ih =>
    rw [firsts_concat, addFirst]
    split_ifs with hmem
    · rw [ih, List.map_append, List.mem_append, List.map_singleton, List.mem_singleton]
      constructor
      · exact .inl
      · rintro (h | rfl)
        · exact h
        · exact ih.mp hmem
    · rw [List.map_append, List.map_append, List.mem_append, List.mem_append, ih]

/-- A head is an entry without an earlier one of its group. -/
theorem mem_firsts {group : α → γ} {rows : List α} {a : α} :
    a ∈ firsts group rows ↔ ∃ before after, rows = before ++ a :: after ∧
      ∀ b ∈ before, group b ≠ group a := by
  induction rows using List.reverseRecOn with
  | nil => simp [firsts]
  | append_singleton rows x ih =>
    rw [firsts_concat]
    have hadd : a ∈ addFirst group (firsts group rows) x ↔
        a ∈ firsts group rows ∨ (a = x ∧ group x ∉ rows.map group) := by
      rw [← mem_map_firsts group rows (group x), addFirst]
      split_ifs with hmem
      · simp [hmem]
      · simp [hmem]
    rw [hadd, ih]
    constructor
    · rintro (⟨before, after, rfl, hbefore⟩ | ⟨rfl, hnew⟩)
      · exact ⟨before, after ++ [x], by rw [List.append_assoc, List.cons_append], hbefore⟩
      · exact ⟨rows, [], rfl, fun b hb hgroup => hnew (hgroup ▸ List.mem_map_of_mem hb)⟩
    · rintro ⟨before, after, hrows, hbefore⟩
      rcases List.eq_nil_or_concat after with rfl | ⟨after, y, rfl⟩
      · obtain ⟨rfl, hlast⟩ := List.append_inj' hrows rfl
        obtain rfl : x = a := by simpa using hlast
        refine .inr ⟨rfl, fun hmem => ?_⟩
        obtain ⟨b, hb, hgroup⟩ := List.mem_map.mp hmem
        exact hbefore b hb hgroup
      · rw [List.concat_eq_append, ← List.cons_append, ← List.append_assoc] at hrows
        exact .inl ⟨before, after, (List.append_inj' hrows rfl).1, hbefore⟩

end Library.Outbox
