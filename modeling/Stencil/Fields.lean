import Stencil.Text.Basic

/-!
# Fields in the order they were first set

The fields of a record or of a mapping keep the order in which their names first appeared, and are
printed in it. Setting a name again replaces its value and leaves its place.

* `get?_set` — setting changes the look-up of one name;
* `names_set` — and adds a name at the end only if it is new, so names stay distinct
  (`nodup_set`).
-/

namespace Stencil.Fields

variable {α : Type}

/-- The value of the field `name`. -/
def get? (name : Text) : List (Text × α) → Option α
  | [] => none
  | (k, v) :: rest => if k = name then some v else get? name rest

/-- The fields with `value` at `name`: in the place of the field of that name, or else at the
end. -/
def set (name : Text) (value : α) : List (Text × α) → List (Text × α)
  | [] => [(name, value)]
  | (k, v) :: rest => if k = name then (k, value) :: rest else (k, v) :: set name value rest

/-- The fields that setting each entry in turn leads to. -/
def ofList (entries : List (Text × α)) : List (Text × α) :=
  entries.foldl (fun fields e => set e.1 e.2 fields) []

theorem get?_set (name other : Text) (value : α) (fields : List (Text × α)) :
    get? other (set name value fields) =
      if other = name then some value else get? other fields := by
  induction fields with
  | nil => simp [set, get?, eq_comm]
  | cons field rest ih =>
    obtain ⟨k, v⟩ := field
    -- the field is set here, or further on
    by_cases hk : k = name
    · subst hk
      by_cases ho : other = k
      · simp [set, get?, ho]
      · simp [set, get?, ho, Ne.symm ho]
    · by_cases ho : k = other
      · subst ho
        simp [set, get?, hk]
      · simp [set, get?, hk, ho, ih]

theorem names_set (name : Text) (value : α) (fields : List (Text × α)) :
    (set name value fields).map (·.1) =
      if name ∈ fields.map (·.1) then fields.map (·.1) else fields.map (·.1) ++ [name] := by
  induction fields with
  | nil => simp [set]
  | cons field rest ih =>
    obtain ⟨k, v⟩ := field
    by_cases hk : k = name
    · simp [set, hk]
    · simp only [set, if_neg hk, List.map_cons, ih, List.mem_cons, Ne.symm hk, false_or]
      split <;> simp

theorem nodup_set (name : Text) (value : α) {fields : List (Text × α)}
    (h : (fields.map (·.1)).Nodup) : ((set name value fields).map (·.1)).Nodup := by
  rw [names_set]
  split
  · exact h
  · next hnew =>
    rw [List.nodup_append]
    refine ⟨h, by simp, ?_⟩
    rintro a ha b hb rfl
    exact hnew (List.mem_singleton.1 hb ▸ ha)

end Stencil.Fields
