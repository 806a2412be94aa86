import Mathlib.Data.List.Induction
import Mathlib.Data.List.Nodup
import Stencil.Fields

/-!
# Fields and the entries that set them

Fields are set one after the other, and an entry for a name that is there already replaces its
value. What becomes of a list of entries in this way can be told without going through it:

* `Fields.gathers_ofList` — the fields have the names of the entries, each once and in the order in
  which the names first occur, and each name has the value of its last entry.

Where names are distinct, a field is what is found at its name (`Fields.get?_eq_some_iff`).
-/

namespace Stencil.Fields

variable {α : Type} {fields entries : List (Text × α)} {name : Text} {value : α}

/-! ### Looking up -/

theorem mem_of_get? (h : get? name fields = some value) : (name, value) ∈ fields := by
  induction fields with
  | nil => cases h
  | cons field fields ih =>
    obtain ⟨k, v⟩ := field
    rw [get?] at h
    split at h
    · next hk =>
      obtain rfl := Option.some.inj h
      exact hk ▸ List.mem_cons_self
    · exact List.mem_cons_of_mem _ (ih h)

theorem get?_eq_none_iff : get? name fields = none ↔ name ∉ fields.map (·.1) := by
  induction fields with
  | nil => exact iff_of_true rfl List.not_mem_nil
  | cons field fields ih =>
    obtain ⟨k, v⟩ := field
    by_cases hk : k = name
    · simp [get?, hk]
    · rw [get?, if_neg hk, ih, List.map_cons, List.mem_cons, not_or]
      exact (and_iff_right (Ne.symm hk)).symm

/-- **Where names are distinct**, a field is what is found at its name. -/
theorem get?_eq_some_iff (hnodup : (fields.map (·.1)).Nodup) :
    get? name fields = some value ↔ (name, value) ∈ fields := by
  refine ⟨mem_of_get?, fun h => ?_⟩
  induction fields with
  | nil => cases h
  | cons field fields ih =>
    obtain ⟨hnew, hrest⟩ := List.nodup_cons.1 hnodup
    rcases List.mem_cons.1 h with rfl | h
    · exact if_pos rfl
    · -- the first field has another name, or else the name would come twice
      have hne : field.1 ≠ name := by
        rintro rfl
        exact hnew (List.mem_map.2 ⟨_, h, rfl⟩)
      rw [get?, if_neg hne]
      exact ih hrest h

/-- So it does not matter from which end they are looked up. -/
theorem get?_reverse (hnodup : (fields.map (·.1)).Nodup) (name : Text) :
    get? name fields.reverse = get? name fields := by
  have hreverse : (fields.reverse.map (·.1)).Nodup := by
    rw [List.map_reverse, List.nodup_reverse]
    exact hnodup
  ext value
  rw [get?_eq_some_iff hreverse, get?_eq_some_iff hnodup, List.mem_reverse]

/-! ### Setting one after the other -/

/-- Whether `fields` **gather** `entries`: each name is there once, in the order in which the names
first occur, and with the value of its last entry. -/
structure Gathers (entries fields : List (Text × α)) : Prop where
  nodup : (fields.map (·.1)).Nodup
  names_eq : fields.map (·.1) = (entries.map (·.1)).eraseDups
  /-- Read from the end, the entry that is found first is the last one. -/
  get?_eq : ∀ name, get? name fields = get? name entries.reverse

/-- One more entry sets one more field, or another value. -/
theorem Gathers.set (h : Gathers entries fields) (name : Text) (value : α) :
    Gathers (entries ++ [(name, value)]) (Fields.set name value fields) := by
  refine ⟨nodup_set name value h.nodup, ?_, ?_⟩
  · have hmem : name ∈ fields.map (·.1) ↔ name ∈ entries.map (·.1) := by
      rw [h.names_eq, List.mem_eraseDups]
    rw [names_set, List.map_append, List.eraseDups_append, ← h.names_eq]
    -- a name that is there keeps its place, and a new one comes last
    by_cases hname : name ∈ fields.map (·.1)
    · rw [if_pos hname]
      simp [List.removeAll, hmem.1 hname]
    · rw [if_neg hname]
      simp [List.removeAll, mt hmem.2 hname, List.eraseDups_cons]
  · intro other
    rw [get?_set, h.get?_eq, List.reverse_append, List.reverse_singleton, List.singleton_append,
      get?]
    simp only [eq_comm]

/-- **Entries that are set one after the other** are gathered. -/
theorem gathers_ofList (entries : List (Text × α)) : Gathers entries (ofList entries) := by
  induction entries using List.reverseRecOn with
  | nil => exact ⟨List.nodup_nil, rfl, fun _ => rfl⟩
  | append_singleton entries e ih =>
    rw [ofList, List.foldl_append]
    exact ih.set e.1 e.2

/-- What was gathered is what was there. -/
theorem Gathers.subset (h : Gathers entries fields) : fields ⊆ entries := by
  rintro ⟨name, value⟩ hmem
  have hget : get? name entries.reverse = some value := by
    rw [← h.get?_eq, get?_eq_some_iff h.nodup]
    exact hmem
  exact List.mem_reverse.1 (mem_of_get? hget)

end Stencil.Fields
