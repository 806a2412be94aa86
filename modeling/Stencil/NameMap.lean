import Stencil.Text.Basic

/-!
# Maps from names, in the order of the names

A finite map from names is the list of its entries in strictly rising order of the names, compared
by code points (which is also the order of their UTF-8 bytes). The order is part of the type, so two
maps with the same look-ups are the same map (`ext_get?`), and listing the names needs no sorting.

* `get?_insert` — inserting changes the look-up of one name;
* `get?_erase` — and so does erasing;
* `get?_extend` — a union looks up in the second map first.
-/

namespace Stencil

/-- A **finite map from names**: its entries, in strictly rising order of the names. -/
structure NameMap (α : Type) where
  entries : List (Text × α)
  ordered : entries.Pairwise (·.1 < ·.1)

namespace NameMap

variable {α β : Type}

theorem ext_entries {m n : NameMap α} (h : m.entries = n.entries) : m = n := by
  cases m
  cases n
  simp_all

instance [DecidableEq α] : DecidableEq (NameMap α) := fun m n =>
  decidable_of_iff (m.entries = n.entries) ⟨ext_entries, fun h => h ▸ rfl⟩

instance [Repr α] : Repr (NameMap α) := ⟨fun m => reprPrec m.entries⟩

/-- The map without entries. -/
def empty : NameMap α := ⟨[], .nil⟩

instance : EmptyCollection (NameMap α) := ⟨empty⟩

instance : Inhabited (NameMap α) := ⟨∅⟩

/-- The names, in rising order. -/
def keys (m : NameMap α) : List Text :=
  m.entries.map (·.1)

/-- The number of entries. -/
def size (m : NameMap α) : Nat :=
  m.entries.length

/-- What stands at `key` in a list of entries. -/
def find? (key : Text) : List (Text × α) → Option α
  | [] => none
  | (k, v) :: rest => if k = key then some v else find? key rest

/-- What the map holds at `key`. -/
def get? (m : NameMap α) (key : Text) : Option α :=
  find? key m.entries

/-- Whether the map has an entry at `key`. -/
def contains (m : NameMap α) (key : Text) : Bool :=
  (m.get? key).isSome

theorem mem_of_find? {key : Text} {value : α} {l : List (Text × α)}
    (h : find? key l = some value) : (key, value) ∈ l := by
  induction l with
  | nil => cases h
  | cons e rest ih =>
    obtain ⟨k, v⟩ := e
    rw [find?] at h
    split at h
    · next hkey =>
      obtain rfl := Option.some.inj h
      exact hkey ▸ List.mem_cons_self
    · exact List.mem_cons_of_mem _ (ih h)

theorem mem_keys_of_get? {m : NameMap α} {key : Text} {value : α} (h : m.get? key = some value) :
    key ∈ m.keys :=
  List.mem_map.2 ⟨(key, value), mem_of_find? h, rfl⟩

/-- A name before all others is not found. -/
theorem find?_eq_none_of_lt {key : Text} {l : List (Text × α)} (h : ∀ e ∈ l, key < e.1) :
    find? key l = none := by
  cases hl : find? key l with
  | none => rfl
  | some value => exact absurd (h (key, value) (mem_of_find? hl)) (List.lt_irrefl key)

/-- So what is found in an ordered list does not come before its first name. -/
theorem not_lt_of_find?_cons {key : Text} {value : α} {e : Text × α} {l : List (Text × α)}
    (hl : ∀ x ∈ l, e.1 < x.1) (h : find? key (e :: l) = some value) : ¬ key < e.1 := by
  intro hlt
  have hnone : find? key (e :: l) = none := by
    refine find?_eq_none_of_lt fun x hx => ?_
    rcases List.mem_cons.1 hx with rfl | hx
    · exact hlt
    · exact List.lt_trans hlt (hl x hx)
  rw [hnone] at h
  cases h

/-! ### Inserting -/

/-- Puts an entry at its place in an ordered list of entries, instead of one with the same name. -/
def insertEntry (key : Text) (value : α) : List (Text × α) → List (Text × α)
  | [] => [(key, value)]
  | (k, v) :: rest =>
    if key < k then (key, value) :: (k, v) :: rest
    else if k = key then (key, value) :: rest
    else (k, v) :: insertEntry key value rest

theorem mem_insertEntry {key : Text} {value : α} {l : List (Text × α)} {e : Text × α}
    (h : e ∈ insertEntry key value l) : e = (key, value) ∨ e ∈ l := by
  induction l with
  | nil => simpa [insertEntry] using h
  | cons head rest ih =>
    obtain ⟨k, v⟩ := head
    simp only [insertEntry] at h
    -- the entry stands in front, takes the place of the first one, or comes further behind
    split at h
    · simpa using h
    · split at h
      · rcases List.mem_cons.1 h with h | h
        · exact .inl h
        · exact .inr (List.mem_cons_of_mem _ h)
      · rcases List.mem_cons.1 h with h | h
        · exact .inr (h ▸ List.mem_cons_self)
        · exact (ih h).imp id (List.mem_cons_of_mem _)

theorem ordered_insertEntry (key : Text) (value : α) {l : List (Text × α)}
    (h : l.Pairwise (·.1 < ·.1)) : (insertEntry key value l).Pairwise (·.1 < ·.1) := by
  induction l with
  | nil => simp [insertEntry]
  | cons head rest ih =>
    obtain ⟨k, v⟩ := head
    obtain ⟨hk, hrest⟩ := List.pairwise_cons.1 h
    simp only [insertEntry]
    split
    · next hlt =>
      refine List.pairwise_cons.2 ⟨?_, h⟩
      intro e he
      rcases List.mem_cons.1 he with rfl | he
      · exact hlt
      · exact List.lt_trans hlt (hk e he)
    · next hlt =>
      split
      · next heq => exact List.pairwise_cons.2 ⟨fun e he => heq ▸ hk e he, hrest⟩
      · next hne =>
        refine List.pairwise_cons.2 ⟨?_, ih hrest⟩
        intro e he
        rcases mem_insertEntry he with rfl | he
        -- the new entry goes behind this one, whose name is smaller
        · rcases Std.lt_trichotomy k key with h' | h' | h'
          · exact h'
          · exact absurd h' hne
          · exact absurd h' hlt
        · exact hk e he

/-- The map with `value` at `key`. -/
def insert (m : NameMap α) (key : Text) (value : α) : NameMap α :=
  ⟨insertEntry key value m.entries, ordered_insertEntry key value m.ordered⟩

theorem find?_insertEntry (key name : Text) (value : α) (l : List (Text × α)) :
    find? name (insertEntry key value l) = if name = key then some value else find? name l := by
  induction l with
  | nil => simp [insertEntry, find?, eq_comm]
  | cons head rest ih =>
    obtain ⟨k, v⟩ := head
    simp only [insertEntry]
    split
    -- in front of the first entry with a greater name
    · by_cases hn : name = key
      · simp [find?, hn]
      · simp [find?, hn, Ne.symm hn]
    · split
      · next heq =>
        -- in the place of the entry with that name
        subst heq
        by_cases hn : name = k
        · simp [find?, hn]
        · simp [find?, hn, Ne.symm hn]
      · next hne =>
        by_cases hk : k = name
        · subst hk
          simp [find?, hne]
        · simp only [find?, if_neg hk, ih]

@[simp] theorem get?_insert (m : NameMap α) (key name : Text) (value : α) :
    (m.insert key value).get? name = if name = key then some value else m.get? name :=
  find?_insertEntry key name value m.entries

/-! ### Erasing -/

/-- The map without an entry at `key`. -/
def erase (m : NameMap α) (key : Text) : NameMap α :=
  ⟨m.entries.filter (·.1 ≠ key), m.ordered.filter _⟩

theorem find?_filter_ne (key name : Text) (l : List (Text × α)) :
    find? name (l.filter (·.1 ≠ key)) = if name = key then none else find? name l := by
  induction l with
  | nil => simp [find?]
  | cons head rest ih =>
    obtain ⟨k, v⟩ := head
    by_cases hk : k = key
    · subst hk
      by_cases hn : name = k
      · simpa [hn] using ih
      · simpa [find?, hn, Ne.symm hn] using ih
    · by_cases hn : k = name
      · subst hn
        simp [find?, hk]
      · simpa [find?, hk, hn] using ih

@[simp] theorem get?_erase (m : NameMap α) (key name : Text) :
    (m.erase key).get? name = if name = key then none else m.get? name :=
  find?_filter_ne key name m.entries

/-! ### Building -/

/-- The entries of `entries` inserted one after the other: of two with one name the later wins. -/
def ofList (entries : List (Text × α)) : NameMap α :=
  entries.foldl (fun m e => m.insert e.1 e.2) ∅

/-- The union of two maps; at a name that both have, the second one wins. -/
def extend (m n : NameMap α) : NameMap α :=
  n.entries.foldl (fun m e => m.insert e.1 e.2) m

theorem get?_foldl_insert {l : List (Text × α)} (h : l.Pairwise (·.1 < ·.1)) (m : NameMap α)
    (name : Text) :
    (l.foldl (fun m e => m.insert e.1 e.2) m).get? name = (find? name l).or (m.get? name) := by
  induction l generalizing m with
  | nil => rfl
  | cons e l ih =>
    obtain ⟨hfirst, hrest⟩ := List.pairwise_cons.1 h
    rw [List.foldl_cons, ih hrest, get?_insert, find?]
    by_cases hname : e.1 = name
    · -- no later entry has the name, so the first one is not replaced again
      have hnone : find? name l = none := find?_eq_none_of_lt (hname ▸ hfirst)
      rw [hnone, if_pos hname, if_pos hname.symm]
      rfl
    · rw [if_neg hname, if_neg (Ne.symm hname)]

@[simp] theorem get?_extend (m n : NameMap α) (name : Text) :
    (m.extend n).get? name = (n.get? name).or (m.get? name) :=
  get?_foldl_insert n.ordered m name

/-- Maps with the same look-ups are equal. -/
theorem ext_get? {m n : NameMap α} (h : ∀ key, m.get? key = n.get? key) : m = n := by
  apply ext_entries
  have hm := m.ordered
  have hn := n.ordered
  simp only [get?] at h
  generalize m.entries = a at h hm
  generalize n.entries = b at h hn
  induction a generalizing b with
  | nil =>
    cases b with
    | nil => rfl
    | cons e b => simpa [find?] using h e.1
  | cons d a ih =>
    cases b with
    | nil => simpa [find?] using h d.1
    | cons e b =>
      obtain ⟨hd, ha⟩ := List.pairwise_cons.1 hm
      obtain ⟨he, hb⟩ := List.pairwise_cons.1 hn
      have hself (x : Text × α) (l : List (Text × α)) : find? x.1 (x :: l) = some x.2 := if_pos rfl
      -- each of the two first names is found in the other list, so neither comes before the other
      have hkey : d.1 = e.1 := by
        have hde : ¬ d.1 < e.1 := not_lt_of_find?_cons he ((h d.1).symm.trans (hself d a))
        have hed : ¬ e.1 < d.1 := not_lt_of_find?_cons hd ((h e.1).trans (hself e b))
        exact ((Std.lt_trichotomy d.1 e.1).resolve_left hde).resolve_right hed
      have hvalue : d.2 = e.2 := by
        have := h d.1
        simpa [find?, hkey] using this
      have hrest : a = b := by
        refine ih ha b ?_ hb
        intro k
        by_cases hk : d.1 = k
        · subst hk
          rw [find?_eq_none_of_lt hd, find?_eq_none_of_lt (hkey ▸ he)]
        · have := h k
          simpa [find?, hk, hkey ▸ hk] using this
      rw [hrest, Prod.ext hkey hvalue]

end NameMap

end Stencil
