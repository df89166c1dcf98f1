import JiraSimulator.Library.DecimalText
import JiraSimulator.Library.Ordering

/-!
# Texts of JSON values

Serializers of JSON without white space, over the texts of the numbers and the order of the keys of
an object.  Two serializers give one text exactly when they write every number alike and sort the
keys of every object alike (`text_eq_iff`): a text can be read from the left in one way only.
-/

namespace Library.JsonText

open DecimalText Library.Ordering

/-- A JSON value. -/
inductive JsonValue where
  | null
  | bool (value : Bool)
  | int (value : ℤ)
  | float (value : JsonFloat)
  | string (value : String)
  | array (items : List JsonValue)
  | object (members : List (String × JsonValue))

/-! ### Strings -/

def hexDigit (n : ℕ) : Char :=
  Nat.digitChar n

/-- The escaped form of a character: the seven short escapes, `\u00xx` for the other control
characters, and the character itself otherwise. -/
def escapeChar (c : Char) : List Char :=
  if c = '"' then ['\\', '"']
  else if c = '\\' then ['\\', '\\']
  else if c = '\n' then ['\\', 'n']
  else if c = '\r' then ['\\', 'r']
  else if c = '\t' then ['\\', 't']
  else if c = '\x0c' then ['\\', 'f']
  else if c = '\x08' then ['\\', 'b']
  else if c.toNat < 0x20 then
    ['\\', 'u', '0', '0', hexDigit (c.toNat / 16), hexDigit (c.toNat % 16)]
  else [c]

/-- A string in quotation marks. -/
def quoted (s : String) : List Char :=
  '"' :: (s.toList.flatMap escapeChar ++ ['"'])

/-- The value of a hexadecimal digit. -/
def hexValue (c : Char) : ℕ :=
  if c.toNat < 58 then c.toNat - 48 else c.toNat - 87

/-- Reads one escaped character. -/
def readChar : List Char → Option (Char × List Char)
  | '\\' :: 'u' :: '0' :: '0' :: a :: b :: rest =>
    some (Char.ofNat (16 * hexValue a + hexValue b), rest)
  | '\\' :: 'n' :: rest => some ('\n', rest)
  | '\\' :: 'r' :: rest => some ('\r', rest)
  | '\\' :: 't' :: rest => some ('\t', rest)
  | '\\' :: 'f' :: rest => some ('\x0c', rest)
  | '\\' :: 'b' :: rest => some ('\x08', rest)
  | '\\' :: c :: rest => some (c, rest)
  | c :: rest => some (c, rest)
  | [] => none

theorem hexValue_hexDigit {n : ℕ} (h : n < 16) : hexValue (hexDigit n) = n := by
  have hall : ∀ n < 16, hexValue (hexDigit n) = n := by decide
  exact hall n h

theorem readChar_escapeChar (c : Char) (rest : List Char) :
    readChar (escapeChar c ++ rest) = some (c, rest) := by
  unfold escapeChar
  by_cases hquote : c = '"'
  · rw [if_pos hquote, hquote]
    rfl
  rw [if_neg hquote]
  by_cases hslash : c = '\\'
  · rw [if_pos hslash, hslash]
    rfl
  rw [if_neg hslash]
  by_cases hn : c = '\n'
  · rw [if_pos hn, hn]
    rfl
  rw [if_neg hn]
  by_cases hr : c = '\r'
  · rw [if_pos hr, hr]
    rfl
  rw [if_neg hr]
  by_cases ht : c = '\t'
  · rw [if_pos ht, ht]
    rfl
  rw [if_neg ht]
  by_cases hf : c = '\x0c'
  · rw [if_pos hf, hf]
    rfl
  rw [if_neg hf]
  by_cases hb : c = '\x08'
  · rw [if_pos hb, hb]
    rfl
  rw [if_neg hb]
  by_cases hcontrol : c.toNat < 0x20
  · rw [if_pos hcontrol]
    show some (Char.ofNat (16 * hexValue (hexDigit (c.toNat / 16)) +
      hexValue (hexDigit (c.toNat % 16))), rest) = some (c, rest)
    rw [hexValue_hexDigit (by omega), hexValue_hexDigit (by omega), Nat.div_add_mod,
      Char.ofNat_toNat]
  · rw [if_neg hcontrol]
    show readChar (c :: rest) = some (c, rest)
    unfold readChar
    split <;> simp_all

/-- No escaped character begins with a quotation mark. -/
theorem escapeChar_append_ne (c : Char) (rest tail : List Char) :
    escapeChar c ++ rest ≠ '"' :: tail := by
  intro h
  have hread := readChar_escapeChar c rest
  rw [h] at hread
  have hc : c = '"' := by
    have : readChar ('"' :: tail) = some ('"', tail) := rfl
    rw [this] at hread
    cases hread
    rfl
  rw [hc] at h
  exact absurd h (by simp [escapeChar])

theorem escaped_inj {s s' tail tail' : List Char}
    (h : s.flatMap escapeChar ++ '"' :: tail = s'.flatMap escapeChar ++ '"' :: tail') :
    s = s' ∧ tail = tail' := by
  induction s generalizing s' with
  | nil =>
    cases s' with
    | nil =>
      cases h
      exact ⟨rfl, rfl⟩
    | cons c s' =>
      rw [List.flatMap_cons, List.append_assoc] at h
      exact absurd h.symm (escapeChar_append_ne c _ _)
  | cons c s ih =>
    cases s' with
    | nil =>
      rw [List.flatMap_cons, List.append_assoc] at h
      exact absurd h (escapeChar_append_ne c _ _)
    | cons c' s' =>
      rw [List.flatMap_cons, List.flatMap_cons, List.append_assoc, List.append_assoc] at h
      have hread := congrArg readChar h
      rw [readChar_escapeChar, readChar_escapeChar] at hread
      simp only [Option.some.injEq, Prod.mk.injEq] at hread
      obtain ⟨hs, htail⟩ := ih hread.2
      exact ⟨by rw [hread.1, hs], htail⟩

/-- A string is read from the front of a text in one way. -/
theorem quoted_inj {s s' : String} {tail tail' : List Char}
    (h : quoted s ++ tail = quoted s' ++ tail') : s = s' ∧ tail = tail' := by
  unfold quoted at h
  simp only [List.cons_append, List.append_assoc, List.nil_append, List.cons.injEq, true_and] at h
  obtain ⟨hs, htail⟩ := escaped_inj h
  exact ⟨String.toList_inj.mp hs, htail⟩

/-! ### Serializers -/

/-- What a serializer is free to choose. -/
structure Style where
  int : ℤ → List Char
  float : JsonFloat → List Char
  /-- The tuple that the keys of an object are sorted by. -/
  key : String → List ℤ

/-- The texts with commas between them. -/
def joined : List (List Char) → List Char
  | [] => []
  | x :: xs => x ++ xs.flatMap (',' :: ·)

/-- The text of a member of an object. -/
def memberText (member : String × List Char) : List Char :=
  quoted member.1 ++ ':' :: member.2

namespace Style

variable (style : Style)

mutual

/-- The text of a value. -/
def text : JsonValue → List Char
  | .null => ['n', 'u', 'l', 'l']
  | .bool true => ['t', 'r', 'u', 'e']
  | .bool false => ['f', 'a', 'l', 's', 'e']
  | .int n => style.int n
  | .float x => style.float x
  | .string s => quoted s
  | .array items => '[' :: (joined (itemTexts items) ++ [']'])
  | .object members =>
    '{' :: (joined ((sortOn (fun member => style.key member.1) (memberTexts members)).map
      memberText) ++ ['}'])

def itemTexts : List JsonValue → List (List Char)
  | [] => []
  | item :: items => text item :: itemTexts items

def memberTexts : List (String × JsonValue) → List (String × List Char)
  | [] => []
  | (key, value) :: members => (key, text value) :: memberTexts members

end

theorem itemTexts_eq (items : List JsonValue) : style.itemTexts items = items.map style.text := by
  induction items with
  | nil => rw [itemTexts, List.map_nil]
  | cons item items ih => rw [itemTexts, ih, List.map_cons]

theorem memberTexts_eq (members : List (String × JsonValue)) :
    style.memberTexts members = members.map fun member => (member.1, style.text member.2) := by
  induction members with
  | nil => rw [memberTexts, List.map_nil]
  | cons member members ih =>
    obtain ⟨key, value⟩ := member
    rw [memberTexts, ih, List.map_cons]

/-- The members of an object in their order. -/
def sorted (members : List (String × JsonValue)) : List (String × JsonValue) :=
  sortOn (fun member => style.key member.1) members

/-- The text of one member. -/
def member (member : String × JsonValue) : List Char :=
  quoted member.1 ++ ':' :: style.text member.2

theorem text_array (items : List JsonValue) :
    style.text (.array items) = '[' :: (joined (items.map style.text) ++ [']']) := by
  rw [text, itemTexts_eq]

theorem text_object (members : List (String × JsonValue)) :
    style.text (.object members) =
      '{' :: (joined ((style.sorted members).map style.member) ++ ['}']) := by
  rw [text, memberTexts_eq, sortOn_map, List.map_map]
  rfl

end Style

/-! ### The parts of a value -/

/-- What serializers may write differently: a number, or the keys of an object. -/
inductive Part where
  | int (value : ℤ)
  | float (value : JsonFloat)
  | keys (names : List String)

mutual

/-- The parts of a value, at any depth. -/
def parts : JsonValue → List Part
  | .int n => [.int n]
  | .float x => [.float x]
  | .array items => itemParts items
  | .object members => .keys (members.map Prod.fst) :: memberParts members
  | .null | .bool _ | .string _ => []

def itemParts : List JsonValue → List Part
  | [] => []
  | item :: items => parts item ++ itemParts items

def memberParts : List (String × JsonValue) → List Part
  | [] => []
  | (_, value) :: members => parts value ++ memberParts members

end

theorem parts_array (items : List JsonValue) : parts (.array items) = items.flatMap parts := by
  rw [parts]
  induction items with
  | nil => rw [itemParts, List.flatMap_nil]
  | cons item items ih => rw [itemParts, ih, List.flatMap_cons]

theorem parts_object (members : List (String × JsonValue)) :
    parts (.object members) =
      .keys (members.map Prod.fst) :: members.flatMap fun member => parts member.2 := by
  rw [parts]
  congr 1
  induction members with
  | nil => rw [memberParts, List.flatMap_nil]
  | cons member members ih =>
    obtain ⟨key, value⟩ := member
    rw [memberParts, ih, List.flatMap_cons]

/-- The keys of every object are distinct. -/
def DistinctKeys (v : JsonValue) : Prop :=
  ∀ names, Part.keys names ∈ parts v → names.Nodup

theorem DistinctKeys.item {items : List JsonValue} (h : DistinctKeys (.array items)) {v : JsonValue}
    (hv : v ∈ items) : DistinctKeys v := by
  intro names hnames
  apply h names
  rw [parts_array]
  exact List.mem_flatMap.mpr ⟨v, hv, hnames⟩

theorem DistinctKeys.names {members : List (String × JsonValue)} (h : DistinctKeys (.object members)) :
    (members.map Prod.fst).Nodup := by
  apply h
  rw [parts_object]
  exact List.mem_cons_self

theorem DistinctKeys.member {members : List (String × JsonValue)}
    (h : DistinctKeys (.object members)) {m : String × JsonValue} (hm : m ∈ members) :
    DistinctKeys m.2 := by
  intro names hnames
  apply h names
  rw [parts_object]
  exact List.mem_cons_of_mem _ (List.mem_flatMap.mpr ⟨m, hm, hnames⟩)

/-- Induction over a value. -/
theorem JsonValue.induction {motive : JsonValue → Prop} (null : motive .null)
    (bool : ∀ b, motive (.bool b)) (int : ∀ n, motive (.int n)) (float : ∀ x, motive (.float x))
    (string : ∀ s, motive (.string s))
    (array : ∀ items, (∀ v ∈ items, motive v) → motive (.array items))
    (object : ∀ members, (∀ m ∈ members, motive m.2) → motive (.object members)) :
    ∀ v, motive v := by
  apply @JsonValue.rec motive (fun items => ∀ v ∈ items, motive v)
    (fun members => ∀ m ∈ members, motive m.2) (fun m => motive m.2) null bool int float string
    array object
  · exact fun v hv => absurd hv List.not_mem_nil
  · intro item items hitem hitems v hv
    rcases List.mem_cons.mp hv with rfl | hv
    · exact hitem
    · exact hitems v hv
  · exact fun m hm => absurd hm List.not_mem_nil
  · intro m members hm hmembers m' hm'
    rcases List.mem_cons.mp hm' with rfl | hm'
    · exact hm
    · exact hmembers m' hm'
  · exact fun _ _ ih => ih

/-! ### Reading a text -/

/-- What may follow a value. -/
def Closed (tail : List Char) : Prop :=
  ∀ c ∈ tail.head?, c = ',' ∨ c = ']' ∨ c = '}'

theorem Closed.nil : Closed [] := by
  intro c hc
  cases hc

theorem Closed.not_number {c : Char} {tail : List Char} (h : Closed (c :: tail)) :
    ¬ NumberChar c := by
  rcases h c rfl with rfl | rfl | rfl <;> unfold NumberChar <;> decide

/-- A number ends where the value ends. -/
theorem number_inj {a b tail tail' : List Char} (ha : ∀ c ∈ a, NumberChar c)
    (hb : ∀ c ∈ b, NumberChar c) (hclosed : Closed tail) (hclosed' : Closed tail')
    (h : a ++ tail = b ++ tail') : a = b ∧ tail = tail' := by
  induction a generalizing b with
  | nil =>
    cases b with
    | nil => exact ⟨rfl, h⟩
    | cons c b =>
      rw [show tail = c :: (b ++ tail') from h] at hclosed
      exact absurd (hb c List.mem_cons_self) hclosed.not_number
  | cons c a ih =>
    cases b with
    | nil =>
      rw [show tail' = c :: (a ++ tail) from h.symm] at hclosed'
      exact absurd (ha c List.mem_cons_self) hclosed'.not_number
    | cons c' b =>
      simp only [List.cons_append, List.cons.injEq] at h
      obtain ⟨heq, htail⟩ := ih (fun c hc => ha c (List.mem_cons_of_mem _ hc))
        (fun c hc => hb c (List.mem_cons_of_mem _ hc)) h.2
      exact ⟨by rw [h.1, heq], htail⟩

/-- The texts after the first of an array or an object. -/
def following (texts : List (List Char)) : List Char :=
  texts.flatMap (',' :: ·)

theorem joined_cons (x : List Char) (xs : List (List Char)) :
    joined (x :: xs) = x ++ following xs := rfl

theorem following_closed (texts : List (List Char)) {c : Char} (hc : c = ']' ∨ c = '}')
    (tail : List Char) : Closed (following texts ++ c :: tail) := by
  cases texts with
  | nil =>
    intro d hd
    cases hd
    exact .inr hc
  | cons x xs =>
    intro d hd
    cases hd
    exact .inl rfl

namespace Style

variable {a b : Style}

/-- Numbers are written with the characters of numbers. -/
structure Plain (style : Style) : Prop where
  int : ∀ n, ∀ c ∈ style.int n, NumberChar c
  float : ∀ x, ∀ c ∈ style.float x, NumberChar c

/-- Two styles treat a part alike. -/
def AlikeAt (a b : Style) : Part → Prop
  | .int n => a.int n = b.int n
  | .float x => a.float x = b.float x
  | .keys names => sortOn a.key names = sortOn b.key names

/-- Two styles treat every part of a value alike. -/
def Alike (a b : Style) (v : JsonValue) : Prop :=
  ∀ part ∈ parts v, AlikeAt a b part

theorem alike_array_iff {items : List JsonValue} :
    Alike a b (.array items) ↔ ∀ v ∈ items, Alike a b v := by
  unfold Alike
  rw [parts_array]
  simp only [List.mem_flatMap, forall_exists_index, and_imp]
  exact ⟨fun h v hv part hpart => h part v hv hpart, fun h part v hv hpart => h v hv part hpart⟩

theorem alike_object_iff {members : List (String × JsonValue)} :
    Alike a b (.object members) ↔
      sortOn a.key (members.map Prod.fst) = sortOn b.key (members.map Prod.fst) ∧
        ∀ m ∈ members, Alike a b m.2 := by
  unfold Alike
  rw [parts_object]
  simp only [List.mem_cons, forall_eq_or_imp, List.mem_flatMap, forall_exists_index, and_imp]
  exact and_congr_right fun _ => ⟨fun h v hv part hpart => h part v hv hpart,
    fun h part v hv hpart => h v hv part hpart⟩

/-- The keys of the sorted members. -/
theorem sorted_names (style : Style) (members : List (String × JsonValue)) :
    (style.sorted members).map Prod.fst = sortOn style.key (members.map Prod.fst) := by
  rw [sortOn_map]
  rfl

/-- Members with distinct keys are known by their keys. -/
theorem eq_of_names {members xs ys : List (String × JsonValue)}
    (hnodup : (members.map Prod.fst).Nodup) (hxs : ∀ m ∈ xs, m ∈ members)
    (hys : ∀ m ∈ ys, m ∈ members) (h : xs.map Prod.fst = ys.map Prod.fst) : xs = ys := by
  induction xs generalizing ys with
  | nil =>
    cases ys with
    | nil => rfl
    | cons y ys => cases h
  | cons x xs ih =>
    cases ys with
    | nil => cases h
    | cons y ys =>
      simp only [List.map_cons, List.cons.injEq] at h
      have hxy : x = y := List.inj_on_of_nodup_map hnodup (hxs x List.mem_cons_self)
        (hys y List.mem_cons_self) h.1
      rw [hxy, ih (fun m hm => hxs m (List.mem_cons_of_mem _ hm))
        (fun m hm => hys m (List.mem_cons_of_mem _ hm)) h.2]

/-- Styles that treat the parts alike give one text. -/
theorem Alike.text_eq : ∀ v, DistinctKeys v → Alike a b v → a.text v = b.text v := by
  intro v
  induction v using JsonValue.induction with
  | null => intro _ _; rw [text, text]
  | bool value => intro _ _; cases value <;> rw [text, text]
  | int n =>
    intro _ h
    rw [text, text]
    exact h (.int n) (by rw [parts]; exact List.mem_cons_self)
  | float x =>
    intro _ h
    rw [text, text]
    exact h (.float x) (by rw [parts]; exact List.mem_cons_self)
  | string s => intro _ _; rw [text, text]
  | array items ih =>
    intro hdistinct h
    rw [text_array, text_array]
    have hmap : items.map a.text = items.map b.text := List.map_congr_left fun v hv =>
      ih v hv (hdistinct.item hv) (alike_array_iff.mp h v hv)
    rw [hmap]
  | object members ih =>
    intro hdistinct h
    obtain ⟨hnames, hmembers⟩ := alike_object_iff.mp h
    -- the names alone decide the order
    have hsorted : a.sorted members = b.sorted members := by
      apply eq_of_names hdistinct.names
      · exact fun m hm => mem_sortOn.mp hm
      · exact fun m hm => mem_sortOn.mp hm
      · rw [sorted_names, sorted_names, hnames]
    rw [text_object, text_object, hsorted]
    have hmap : (b.sorted members).map a.member = (b.sorted members).map b.member := by
      refine List.map_congr_left fun m hm => ?_
      have hm : m ∈ members := mem_sortOn.mp hm
      unfold member
      rw [ih m hm (hdistinct.member hm) (hmembers m hm)]
    rw [hmap]

/-- What reading the text of a value from the left tells: where the value ends, and that the styles
treat it alike. -/
def ReadsAlike (a b : Style) (v : JsonValue) : Prop :=
  ∀ tail tail', Closed tail → Closed tail' → a.text v ++ tail = b.text v ++ tail' →
    tail = tail' ∧ Alike a b v

/-- The items of an array after the first. -/
theorem following_items {items : List JsonValue} (ih : ∀ v ∈ items, ReadsAlike a b v)
    {tail tail' : List Char}
    (h : following (items.map a.text) ++ ']' :: tail =
      following (items.map b.text) ++ ']' :: tail') :
    tail = tail' ∧ ∀ v ∈ items, Alike a b v := by
  induction items with
  | nil =>
    simp only [List.map_nil, following, List.flatMap_nil, List.nil_append, List.cons.injEq,
      true_and] at h
    exact ⟨h, fun v hv => absurd hv List.not_mem_nil⟩
  | cons item items hitems =>
    simp only [following, List.map_cons, List.flatMap_cons, List.cons_append, List.append_assoc,
      List.cons.injEq, true_and] at h
    obtain ⟨hrest, hitem⟩ := ih item List.mem_cons_self _ _
      (following_closed (items.map a.text) (.inl rfl) tail)
      (following_closed (items.map b.text) (.inl rfl) tail') h
    obtain ⟨htail, hall⟩ := hitems (fun v hv => ih v (List.mem_cons_of_mem _ hv)) hrest
    refine ⟨htail, fun v hv => ?_⟩
    rcases List.mem_cons.mp hv with rfl | hv
    · exact hitem
    · exact hall v hv

/-- One member, with what follows it. -/
theorem member_inj {members : List (String × JsonValue)}
    (hnodup : (members.map Prod.fst).Nodup) (ih : ∀ m ∈ members, ReadsAlike a b m.2)
    {m m' : String × JsonValue} (hm : m ∈ members) (hm' : m' ∈ members) {tail tail' : List Char}
    (hclosed : Closed tail) (hclosed' : Closed tail')
    (h : a.member m ++ tail = b.member m' ++ tail') :
    m = m' ∧ tail = tail' ∧ Alike a b m.2 := by
  unfold member at h
  rw [List.append_assoc, List.append_assoc] at h
  obtain ⟨hkey, hvalue⟩ := quoted_inj h
  simp only [List.cons_append, List.cons.injEq, true_and] at hvalue
  -- the key tells the member
  have hsame : m = m' := List.inj_on_of_nodup_map hnodup hm hm' hkey
  rw [← hsame] at hvalue
  obtain ⟨htail, halike⟩ := ih m hm _ _ hclosed hclosed' hvalue
  exact ⟨hsame, htail, halike⟩

/-- The members of an object after the first, in the two orders. -/
theorem following_members {members : List (String × JsonValue)}
    (hnodup : (members.map Prod.fst).Nodup) (ih : ∀ m ∈ members, ReadsAlike a b m.2)
    {xs ys : List (String × JsonValue)} (hxs : ∀ m ∈ xs, m ∈ members)
    (hys : ∀ m ∈ ys, m ∈ members) {tail tail' : List Char}
    (h : following (xs.map a.member) ++ '}' :: tail =
      following (ys.map b.member) ++ '}' :: tail') :
    xs = ys ∧ tail = tail' ∧ ∀ m ∈ xs, Alike a b m.2 := by
  induction xs generalizing ys with
  | nil =>
    cases ys with
    | nil =>
      simp only [List.map_nil, following, List.flatMap_nil, List.nil_append, List.cons.injEq,
        true_and] at h
      exact ⟨rfl, h, fun v hv => absurd hv List.not_mem_nil⟩
    | cons y ys => simp [following] at h
  | cons x xs hrest =>
    cases ys with
    | nil => simp [following] at h
    | cons y ys =>
      simp only [following, List.map_cons, List.flatMap_cons, List.cons_append, List.append_assoc,
        List.cons.injEq, true_and] at h
      obtain ⟨hxy, htails, hx⟩ := member_inj hnodup ih (hxs x List.mem_cons_self)
        (hys y List.mem_cons_self) (following_closed (xs.map a.member) (.inr rfl) tail)
        (following_closed (ys.map b.member) (.inr rfl) tail') h
      obtain ⟨heq, htail, hall⟩ := hrest (fun m hm => hxs m (List.mem_cons_of_mem _ hm))
        (fun m hm => hys m (List.mem_cons_of_mem _ hm)) htails
      refine ⟨by rw [hxy, heq], htail, fun m hm => ?_⟩
      rcases List.mem_cons.mp hm with rfl | hm
      · exact hx
      · exact hall m hm

/-- A text is read from the left in one way. -/
theorem readsAlike (ha : a.Plain) (hb : b.Plain) : ∀ v, DistinctKeys v → ReadsAlike a b v := by
  intro v
  induction v using JsonValue.induction with
  | null =>
    intro _ tail tail' _ _ h
    rw [text, text] at h
    exact ⟨List.append_cancel_left h, fun part hpart => by simp [parts] at hpart⟩
  | bool value =>
    intro _ tail tail' _ _ h
    have hsame : a.text (.bool value) = b.text (.bool value) := by
      cases value <;> rw [text, text]
    rw [hsame] at h
    exact ⟨List.append_cancel_left h, fun part hpart => by simp [parts] at hpart⟩
  | int n =>
    intro _ tail tail' hclosed hclosed' h
    rw [text, text] at h
    -- a number ends where the first character that cannot continue it stands
    obtain ⟨heq, htail⟩ := number_inj (ha.int n) (hb.int n) hclosed hclosed' h
    refine ⟨htail, fun part hpart => ?_⟩
    rw [parts, List.mem_singleton] at hpart
    rw [hpart]
    exact heq
  | float x =>
    intro _ tail tail' hclosed hclosed' h
    rw [text, text] at h
    obtain ⟨heq, htail⟩ := number_inj (ha.float x) (hb.float x) hclosed hclosed' h
    refine ⟨htail, fun part hpart => ?_⟩
    rw [parts, List.mem_singleton] at hpart
    rw [hpart]
    exact heq
  | string s =>
    intro _ tail tail' _ _ h
    rw [text, text] at h
    exact ⟨List.append_cancel_left h, fun part hpart => by simp [parts] at hpart⟩
  | array items ih =>
    intro hdistinct tail tail' _ _ h
    have hih : ∀ v ∈ items, ReadsAlike a b v := fun v hv => ih v hv (hdistinct.item hv)
    rw [text_array, text_array] at h
    cases items with
    | nil =>
      exact ⟨by simpa [joined] using h, alike_array_iff.mpr fun v hv => absurd hv List.not_mem_nil⟩
    | cons item items =>
      simp only [List.map_cons, joined_cons, List.cons_append, List.append_assoc, List.nil_append,
        List.cons.injEq, true_and] at h
      obtain ⟨hrest, hitem⟩ := hih item List.mem_cons_self _ _
        (following_closed (items.map a.text) (.inl rfl) tail)
        (following_closed (items.map b.text) (.inl rfl) tail') h
      obtain ⟨htail, hall⟩ := following_items
        (fun v hv => hih v (List.mem_cons_of_mem _ hv)) hrest
      refine ⟨htail, alike_array_iff.mpr fun v hv => ?_⟩
      rcases List.mem_cons.mp hv with rfl | hv
      · exact hitem
      · exact hall v hv
  | object members ih =>
    intro hdistinct tail tail' _ _ h
    have hih : ∀ m ∈ members, ReadsAlike a b m.2 := fun m hm => ih m hm (hdistinct.member hm)
    have hnodup := hdistinct.names
    rw [text_object, text_object] at h
    have hxs : ∀ m ∈ a.sorted members, m ∈ members := fun m hm => mem_sortOn.mp hm
    have hys : ∀ m ∈ b.sorted members, m ∈ members := fun m hm => mem_sortOn.mp hm
    -- both styles list the same members, whichever order each sorts them in
    have hread : a.sorted members = b.sorted members ∧ tail = tail' ∧
        ∀ m ∈ a.sorted members, Alike a b m.2 := by
      generalize a.sorted members = xs at h hxs
      generalize b.sorted members = ys at h hys
      cases xs with
      | nil =>
        cases ys with
        | nil =>
          exact ⟨rfl, by simpa [joined] using h, fun m hm => absurd hm List.not_mem_nil⟩
        | cons y ys => simp [joined, member, quoted] at h
      | cons x xs =>
        cases ys with
        | nil => simp [joined, member, quoted] at h
        | cons y ys =>
          simp only [List.map_cons, joined_cons, List.cons_append, List.append_assoc,
            List.nil_append, List.cons.injEq, true_and] at h
          obtain ⟨hxy, htails, hx⟩ := member_inj hnodup hih (hxs x List.mem_cons_self)
            (hys y List.mem_cons_self) (following_closed (xs.map a.member) (.inr rfl) tail)
            (following_closed (ys.map b.member) (.inr rfl) tail') h
          obtain ⟨heq, htail, hall⟩ := following_members hnodup hih
            (fun m hm => hxs m (List.mem_cons_of_mem _ hm))
            (fun m hm => hys m (List.mem_cons_of_mem _ hm)) htails
          refine ⟨by rw [hxy, heq], htail, fun m hm => ?_⟩
          rcases List.mem_cons.mp hm with rfl | hm
          · exact hx
          · exact hall m hm
    obtain ⟨hsorted, htail, hall⟩ := hread
    refine ⟨htail, alike_object_iff.mpr ⟨?_, fun m hm => hall m (mem_sortOn.mpr hm)⟩⟩
    rw [← sorted_names, ← sorted_names, hsorted]

/-- Two serializers give one text exactly when they treat every part alike. -/
theorem text_eq_iff (ha : a.Plain) (hb : b.Plain) {v : JsonValue} (hdistinct : DistinctKeys v) :
    a.text v = b.text v ↔ Alike a b v := by
  refine ⟨fun h => ?_, Alike.text_eq v hdistinct⟩
  have hread := readsAlike ha hb v hdistinct [] [] Closed.nil Closed.nil (by rw [h])
  exact hread.2

end Style

end Library.JsonText
