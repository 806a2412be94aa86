import Mathlib.Data.List.Sort
import Stencil.Context
import Stencil.Proofs.Text.ByteOrder
import Stencil.Proofs.Value.Fields
import Stencil.Proofs.Value.Parts

/-!
# Mappings whose entries come in no particular order

A program keeps a mapping hashed or sorted. A sorted one lists its entries in the order of their
names; a hashed one lists them in an order that depends on the hash function, so its entries are
sorted before they are set. The value that a mapping becomes must not show which way it was kept:

* `Fields.eq_of_perm_of_rising` — names that are distinct can be listed in rising order in one way
  only;
* `Fields.ofList_of_nodup` — and setting the entries one after the other keeps the order in which
  they come;
* `Collection.SameEntries.toValue_eq` — so collections with the same entries become the same value,
  whatever orders their mappings are listed in, at every depth.
-/

namespace Stencil

/-! ### Entries in rising order -/

namespace Fields

variable {α : Type} {entries others : List (Text × α)}

/-- Whether the names of entries **rise**, compared by their bytes. -/
def Rising (entries : List (Text × α)) : Prop :=
  entries.Pairwise (·.1.bytes < ·.1.bytes)

instance : Decidable (Rising entries) :=
  inferInstanceAs (Decidable (entries.Pairwise _))

/-- The entries in the order of their names; entries of one name keep their order. -/
def sortByName (entries : List (Text × α)) : List (Text × α) :=
  entries.mergeSort fun a b => decide (a.1.bytes ≤ b.1.bytes)

theorem Rising.nodup (h : Rising entries) : (entries.map (·.1)).Nodup := by
  rw [List.Nodup, List.pairwise_map]
  refine h.imp fun {a b} hlt heq => ?_
  rw [heq] at hlt
  exact List.lt_irrefl _ hlt

theorem sortByName_perm (entries : List (Text × α)) : (sortByName entries).Perm entries :=
  List.mergeSort_perm entries _

/-- **Sorting** distinct names makes them rise. -/
theorem rising_sortByName (h : (entries.map (·.1)).Nodup) : Rising (sortByName entries) := by
  have hsorted : (sortByName entries).Pairwise (·.1.bytes ≤ ·.1.bytes) := by
    have hpairs : (sortByName entries).Pairwise fun a b => decide (a.1.bytes ≤ b.1.bytes) := by
      apply List.pairwise_mergeSort
      · intro a b c hab hbc
        exact decide_eq_true (List.le_trans (of_decide_eq_true hab) (of_decide_eq_true hbc))
      · intro a b
        simpa using List.le_total a.1.bytes b.1.bytes
    exact hpairs.imp of_decide_eq_true
  have hdistinct : (sortByName entries).Pairwise fun a b => a.1 ≠ b.1 := by
    apply List.pairwise_map.1
    exact ((sortByName_perm entries).map _).nodup_iff.2 h
  -- sorted names that differ rise
  refine (hsorted.and hdistinct).imp fun ⟨hle, hne⟩ => ?_
  rcases List.le_iff_lt_or_eq.1 hle with hlt | heq
  · exact hlt
  · exact absurd (Text.bytes_injective heq) hne

/-- **There is one rising order** of given entries. -/
theorem eq_of_perm_of_rising (hperm : entries.Perm others) (h : Rising entries)
    (hothers : Rising others) : entries = others := by
  refine hperm.eq_of_pairwise ?_ h hothers
  intro a b _ _ hab hba
  exact absurd hba (Std.Asymm.asymm _ _ hab)

theorem set_of_notMem {fields : List (Text × α)} {name : Text} (h : name ∉ fields.map (·.1))
    (value : α) : set name value fields = fields ++ [(name, value)] := by
  induction fields with
  | nil => rfl
  | cons field fields ih =>
    obtain ⟨hne, hrest⟩ := not_or.1 (mt List.mem_cons.2 h)
    rw [set, if_neg (Ne.symm hne), ih hrest, List.cons_append]

/-- **Entries with distinct names** are the fields that setting them leads to. -/
theorem ofList_of_nodup (h : (entries.map (·.1)).Nodup) : ofList entries = entries := by
  induction entries using List.reverseRecOn with
  | nil => rfl
  | append_singleton entries e ih =>
    rw [List.map_append, List.nodup_append] at h
    obtain ⟨hnodup, -, hnew⟩ := h
    have hnotMem : e.1 ∉ entries.map (·.1) := fun hmem =>
      hnew _ hmem _ (List.mem_singleton_self _) rfl
    calc ofList (entries ++ [e])
        = set e.1 e.2 (ofList entries) := by rw [ofList, List.foldl_append]; rfl
      _ = set e.1 e.2 entries := by rw [ih hnodup]
      _ = entries ++ [e] := set_of_notMem hnotMem e.2

end Fields

namespace NameMap

variable {α : Type} {entries : List (Text × α)}

theorem perm_insertEntry {key : Text} {l : List (Text × α)} (h : key ∉ l.map (·.1)) (value : α) :
    (insertEntry key value l).Perm ((key, value) :: l) := by
  induction l with
  | nil => exact .refl _
  | cons e l ih =>
    obtain ⟨hne, hrest⟩ := not_or.1 (mt List.mem_cons.2 h)
    rw [insertEntry]
    split
    · exact .refl _
    · rw [if_neg (Ne.symm hne)]
      exact ((ih hrest).cons e).trans (.swap ..)

/-- A map that is built from entries with distinct names holds just these. -/
theorem perm_entries_ofList (h : (entries.map (·.1)).Nodup) :
    (ofList entries).entries.Perm entries := by
  induction entries using List.reverseRecOn with
  | nil => exact .refl _
  | append_singleton entries e ih =>
    rw [List.map_append, List.nodup_append] at h
    obtain ⟨hnodup, -, hnew⟩ := h
    have hperm := ih hnodup
    -- the last entry has a new name, so nothing is replaced when it is put in
    have hnotMem : e.1 ∉ (ofList entries).entries.map (·.1) := fun hmem =>
      hnew _ ((hperm.map _).mem_iff.1 hmem) _ (List.mem_singleton_self _) rfl
    calc (ofList (entries ++ [e])).entries
        = insertEntry e.1 e.2 (ofList entries).entries := by
          rw [ofList, List.foldl_append]; rfl
      List.Perm _ (e :: (ofList entries).entries) := perm_insertEntry hnotMem e.2
      List.Perm _ (e :: entries) := hperm.cons e
      List.Perm _ (entries ++ [e]) := (List.perm_append_singleton e entries).symm

theorem rising_entries (m : NameMap α) : Fields.Rising m.entries :=
  m.ordered.imp Text.bytes_lt_bytes

end NameMap

/-- **Sorting and then setting** leads to the mapping in the order of the names. -/
theorem Value.ofUnordered_eq {entries : List (Text × Value)} (h : (entries.map (·.1)).Nodup) :
    Value.ofUnordered entries = .map (Fields.ofList (Fields.sortByName entries)) := by
  have hrising := Fields.rising_sortByName h
  have hperm := (NameMap.perm_entries_ofList h).trans (Fields.sortByName_perm entries).symm
  rw [Fields.ofList_of_nodup hrising.nodup, ofUnordered,
    Fields.eq_of_perm_of_rising hperm (NameMap.rising_entries _) hrising]

/-- **The order** in which entries come does not show. -/
theorem Value.ofUnordered_perm {entries others : List (Text × Value)} (h : entries.Perm others)
    (hnodup : (entries.map (·.1)).Nodup) : ofUnordered entries = ofUnordered others := by
  have hothers : (others.map (·.1)).Nodup := (h.map _).nodup_iff.1 hnodup
  rw [ofUnordered, ofUnordered]
  congr 1
  apply Fields.eq_of_perm_of_rising _ (NameMap.rising_entries _) (NameMap.rising_entries _)
  calc (NameMap.ofList entries).entries
      List.Perm _ entries := NameMap.perm_entries_ofList hnodup
      List.Perm _ others := h
      List.Perm _ (NameMap.ofList others).entries := (NameMap.perm_entries_ofList hothers).symm

/-! ### Collections of a program -/

/-- How a program **keeps** a mapping. -/
inductive Keeping where
  | hashed
  | sorted
  deriving DecidableEq, Repr

namespace Keeping

/-- The fields of a mapping whose entries are listed as `entries`: those of a hashed one are sorted
first. -/
def toFields (k : Keeping) (entries : List (Text × Value)) : List (Text × Value) :=
  match k with
  | hashed => Fields.ofList (Fields.sortByName entries)
  | sorted => Fields.ofList entries

/-- Whether a mapping may list its entries as `entries`: a hashed one in any order, a sorted one in
rising order only. -/
def Lists {α : Type} (k : Keeping) (entries : List (Text × α)) : Prop :=
  match k with
  | hashed => (entries.map (·.1)).Nodup
  | sorted => Fields.Rising entries

instance {α : Type} (k : Keeping) (entries : List (Text × α)) : Decidable (k.Lists entries) :=
  match k with
  | hashed => inferInstanceAs (Decidable (entries.map (·.1)).Nodup)
  | sorted => inferInstanceAs (Decidable (Fields.Rising entries))

variable {α : Type} {k : Keeping}

theorem Lists.nodup {entries : List (Text × α)} (h : k.Lists entries) :
    (entries.map (·.1)).Nodup := by
  cases k with
  | hashed => exact h
  | sorted => exact Fields.Rising.nodup h

/-- **Either way** a mapping becomes the one in the order of the names. -/
theorem map_toFields {entries : List (Text × Value)} (h : k.Lists entries) :
    Value.map (k.toFields entries) = Value.ofUnordered entries := by
  cases k with
  | hashed => exact (Value.ofUnordered_eq h).symm
  | sorted =>
    have hrising : Fields.Rising entries := h
    rw [Value.ofUnordered_eq hrising.nodup, toFields]
    -- sorting leaves rising entries as they are
    congr 2
    exact Fields.eq_of_perm_of_rising (Fields.sortByName_perm entries).symm hrising
      (Fields.rising_sortByName hrising.nodup)

end Keeping

/-- A **collection** of a program, each of its mappings as it lists its entries. -/
inductive Collection where
  | value (v : Value)
  | list (items : List Collection)
  | map (k : Keeping) (entries : List (Text × Collection))
  deriving Repr, Inhabited

namespace Collection

mutual

/-- The value that a collection becomes. -/
def toValue : Collection → Value
  | value v => v
  | list items => .list (itemsToValues items)
  | map k entries => .map (k.toFields (entriesToValues entries))

/-- The values that items become. -/
def itemsToValues : List Collection → List Value
  | [] => []
  | c :: rest => c.toValue :: itemsToValues rest

/-- The entries with the values that theirs become. -/
def entriesToValues : List (Text × Collection) → List (Text × Value)
  | [] => []
  | (name, c) :: rest => (name, c.toValue) :: entriesToValues rest

end

/-- Whether two collections hold **the same entries**, at every depth: the one may keep its mappings
in another way than the other, and list them in another order. -/
inductive SameEntries : Collection → Collection → Prop
  | value (v : Value) : SameEntries (value v) (value v)
  | list {items items' : List Collection} (h : List.Forall₂ SameEntries items items') :
    SameEntries (list items) (list items')
  /-- The entries agree one by one after some reordering. -/
  | map {k k' : Keeping} {entries reordered entries' : List (Text × Collection)}
    (h : k.Lists entries) (h' : k'.Lists entries')
    (hnames : entries.map (·.1) = reordered.map (·.1))
    (hvalues : List.Forall₂ SameEntries (entries.map (·.2)) (reordered.map (·.2)))
    (hperm : reordered.Perm entries') : SameEntries (map k entries) (map k' entries')

theorem itemsToValues_eq_map (items : List Collection) :
    itemsToValues items = items.map toValue := by
  induction items with
  | nil => rfl
  | cons c items ih => rw [itemsToValues, ih, List.map_cons]

theorem entriesToValues_eq_map (entries : List (Text × Collection)) :
    entriesToValues entries = entries.map fun e => (e.1, e.2.toValue) := by
  induction entries with
  | nil => rfl
  | cons e entries ih => rw [entriesToValues, ih, List.map_cons]

theorem names_entriesToValues (entries : List (Text × Collection)) :
    (entriesToValues entries).map (·.1) = entries.map (·.1) := by
  rw [entriesToValues_eq_map, List.map_map]
  rfl

/-- Entries become the same if their names are the same and their values become the same. -/
theorem entriesToValues_congr {entries others : List (Text × Collection)}
    (hnames : entries.map (·.1) = others.map (·.1))
    (hvalues : (entries.map (·.2)).map toValue = (others.map (·.2)).map toValue) :
    entriesToValues entries = entriesToValues others := by
  have hzip (l : List (Text × Collection)) :
      entriesToValues l = (l.map (·.1)).zip ((l.map (·.2)).map toValue) := by
    rw [entriesToValues_eq_map, List.map_map, List.zip_map']
    rfl
  rw [hzip, hzip, hnames, hvalues]

theorem lists_entriesToValues {k : Keeping} {entries : List (Text × Collection)}
    (h : k.Lists entries) : k.Lists (entriesToValues entries) := by
  cases k with
  | hashed =>
    show ((entriesToValues entries).map (·.1)).Nodup
    rw [names_entriesToValues]
    exact h
  | sorted =>
    show (entriesToValues entries).Pairwise _
    rw [entriesToValues_eq_map, List.pairwise_map]
    exact h

/-- The collections that a collection holds. -/
def parts : Collection → List Collection
  | value _ => []
  | list items => items
  | map _ entries => entries.map (·.2)

theorem sizeOf_lt_of_mem_parts {c d : Collection} (h : d ∈ c.parts) : sizeOf d < sizeOf c := by
  cases c with
  | value v => exact absurd h List.not_mem_nil
  | list items =>
    have hitem : sizeOf d < sizeOf items := List.sizeOf_lt_of_mem h
    simp only [list.sizeOf_spec]
    omega
  | map k entries =>
    have hentry : sizeOf d < sizeOf entries := sizeOf_lt_of_mem_map_snd h
    simp only [map.sizeOf_spec]
    omega

/-- **Collections with the same entries** become the same value. -/
theorem SameEntries.toValue_eq {c d : Collection} (h : SameEntries c d) :
    c.toValue = d.toValue := by
  induction c using Parts.induction sizeOf_lt_of_mem_parts generalizing d with
  | step c ih =>
    -- what stands one by one in the two collections becomes the same
    have hparts {cs : List Collection} (hcs : List.Forall₂ SameEntries c.parts cs) :
        c.parts.map toValue = cs.map toValue :=
      hcs.map_eq_map fun x hx _ => ih x hx
    cases h with
    | value v => rfl
    | @list items items' hitems =>
      have hvalues : items.map toValue = items'.map toValue := hparts hitems
      rw [toValue, toValue, itemsToValues_eq_map, itemsToValues_eq_map, hvalues]
    | @map k k' entries reordered entries' hlists hlists' hnames hvalues hperm =>
      have hentries : entriesToValues entries = entriesToValues reordered :=
        entriesToValues_congr hnames (hparts hvalues)
      have hvalued : (entriesToValues entries).Perm (entriesToValues entries') := by
        rw [hentries, entriesToValues_eq_map, entriesToValues_eq_map]
        exact hperm.map _
      rw [toValue, toValue, Keeping.map_toFields (lists_entriesToValues hlists),
        Keeping.map_toFields (lists_entriesToValues hlists')]
      exact Value.ofUnordered_perm hvalued (lists_entriesToValues hlists).nodup

/-- **A mapping does not show how it was listed**: whatever the two keepings and the two orders,
here and in the values of the entries, both become one mapping, which has the entries in the rising
order of their names. -/
theorem exists_rising_fields_of_sameEntries {k k' : Keeping}
    {entries entries' : List (Text × Collection)}
    (h : SameEntries (map k entries) (map k' entries')) :
    ∃ fields, (map k entries).toValue = .map fields ∧ (map k' entries').toValue = .map fields ∧
      Value.ofUnordered (entriesToValues entries) = .map fields ∧
      fields.Perm (entriesToValues entries) ∧ Fields.Rising fields ∧
      (map k entries).toValue.printed = (map k' entries').toValue.printed := by
  have heq := h.toValue_eq
  have hlists : k.Lists (entriesToValues entries) := by
    cases h with
    | map hlists => exact lists_entriesToValues hlists
  -- both are the entries, kept in the rising order of their names
  have hvalue : (map k entries).toValue = Value.ofUnordered (entriesToValues entries) :=
    Keeping.map_toFields hlists
  refine ⟨_, hvalue, heq.symm.trans hvalue, rfl, NameMap.perm_entries_ofList hlists.nodup,
    NameMap.rising_entries _, ?_⟩
  rw [heq]

/-- A hashed mapping, which happens to list `é` first, and within it another one. -/
def hashedShelf : List (Text × Collection) :=
  [("é".toList, .value (.bool true)),
    ("ab".toList, .list [.map .hashed [("y".toList, .value .null), ("x".toList, .value .null)]]),
    ("a".toList, .value (.unsigned 1))]

/-- The same entries, in the order of their names. -/
def sortedShelf : List (Text × Collection) :=
  [("a".toList, .value (.unsigned 1)),
    ("ab".toList, .list [.map .sorted [("x".toList, .value .null), ("y".toList, .value .null)]]),
    ("é".toList, .value (.bool true))]

theorem sameEntries_shelves : SameEntries (map .hashed hashedShelf) (map .sorted sortedShelf) := by
  have hinner : SameEntries
      (.map .hashed [("y".toList, .value .null), ("x".toList, .value .null)])
      (.map .sorted [("x".toList, .value .null), ("y".toList, .value .null)]) := by
    apply SameEntries.map (by decide) (by decide) rfl _ (List.Perm.swap ..)
    exact .cons (.value _) (.cons (.value _) .nil)
  -- reversed, the one has the names of the other, and values with the same entries
  have hvalues : List.Forall₂ SameEntries (hashedShelf.map (·.2))
      (sortedShelf.reverse.map (·.2)) :=
    .cons (.value _) (.cons (.list (.cons hinner .nil)) (.cons (.value _) .nil))
  exact .map (by decide) (by decide) (by decide) hvalues (List.reverse_perm _)

/-- The two shelves become one mapping. -/
theorem exists_rising_fields_shelves :
    SameEntries (map .hashed hashedShelf) (map .sorted sortedShelf) ∧
      ∃ fields, (map .hashed hashedShelf).toValue = .map fields ∧
        (map .sorted sortedShelf).toValue = .map fields ∧
        Value.ofUnordered (entriesToValues hashedShelf) = .map fields ∧
        fields.Perm (entriesToValues hashedShelf) ∧ Fields.Rising fields ∧
        (map .hashed hashedShelf).toValue.printed = (map .sorted sortedShelf).toValue.printed :=
  ⟨sameEntries_shelves, exists_rising_fields_of_sameEntries sameEntries_shelves⟩

end Collection

end Stencil
