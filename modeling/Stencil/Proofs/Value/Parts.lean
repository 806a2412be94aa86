import Mathlib.Data.List.Forall2
import Mathlib.Logic.Relation
import Stencil.Value.Basic

/-!
# Parts

A list holds its items and a mapping the values of its fields, and these may hold others. What is
said of a value *at every depth* is said of all that stands within it, itself included. The same can
be said of data, of trees of JSON, and of whatever else is made up of smaller things of its kind; so
it is said here of any function that gives the parts.

* `Parts.induction` — what holds of a whole as soon as it does of all its parts, holds of every
  whole, if parts are smaller;
* `Parts.within_iff` — what stands within a whole is the whole itself, or it stands within a part of
  it.
-/

/-! ### Lists that are related one by one -/

section Forall₂

variable {α β : Type} {r : α → β → Prop} {xs : List α} {ys : List β}

/-- What stands in one list has a counterpart in the other. -/
theorem List.Forall₂.exists_of_mem_right (h : List.Forall₂ r xs ys) {y : β} (hy : y ∈ ys) :
    ∃ x ∈ xs, r x y := by
  induction h with
  | nil => cases hy
  | cons hxy _ ih =>
    rcases List.mem_cons.1 hy with rfl | hy
    · exact ⟨_, List.mem_cons_self, hxy⟩
    · obtain ⟨x, hx, hr⟩ := ih hy
      exact ⟨x, List.mem_cons_of_mem _ hx, hr⟩

/-- Lists that are related have the same image, if what is related has. -/
theorem List.Forall₂.map_eq_map {γ : Type} {f : α → γ} {g : β → γ} (h : List.Forall₂ r xs ys)
    (himage : ∀ x ∈ xs, ∀ y, r x y → f x = g y) : xs.map f = ys.map g := by
  induction h with
  | nil => rfl
  | @cons x y xs ys hxy _ ih =>
    have hrest : xs.map f = ys.map g := ih fun x hx => himage x (List.mem_cons_of_mem _ hx)
    rw [List.map_cons, List.map_cons, himage x List.mem_cons_self y hxy, hrest]

end Forall₂

namespace Stencil

theorem sizeOf_lt_of_mem_map_snd {α β : Type} [SizeOf α] [SizeOf β] {l : List (α × β)} {b : β}
    (h : b ∈ l.map (·.2)) : sizeOf b < sizeOf l := by
  obtain ⟨⟨a, b⟩, hpair, rfl⟩ := List.mem_map.1 h
  have hlt : sizeOf (a, b) < sizeOf l := List.sizeOf_lt_of_mem hpair
  simp only [Prod.mk.sizeOf_spec] at hlt ⊢
  omega

/-! ### Parts of anything -/

namespace Parts

variable {α : Type} {parts : α → List α} {x y z : α}

/-- **Induction on the parts** of a whole, which are smaller than it. -/
theorem induction [SizeOf α] (smaller : ∀ {x part : α}, part ∈ parts x → sizeOf part < sizeOf x)
    {p : α → Prop} (step : ∀ x, (∀ part ∈ parts x, p part) → p x) (x : α) : p x :=
  (measure sizeOf).wf.induction x fun x ih => step x fun part hpart => ih part (smaller hpart)

/-- Whether `x` **stands within** `y`, at some depth; a whole stands within itself. -/
def Within (parts : α → List α) (x y : α) : Prop :=
  Relation.ReflTransGen (fun inner outer => inner ∈ parts outer) x y

theorem Within.refl (x : α) : Within parts x x :=
  Relation.ReflTransGen.refl

theorem Within.of_mem_parts (h : Within parts x y) (hy : y ∈ parts z) : Within parts x z :=
  h.tail hy

theorem Within.trans (hxy : Within parts x y) (hyz : Within parts y z) : Within parts x z :=
  Relation.ReflTransGen.trans hxy hyz

theorem within_iff : Within parts x y ↔ x = y ∨ ∃ part ∈ parts y, Within parts x part := by
  constructor
  · intro h
    rcases h.cases_tail with rfl | ⟨part, hx, hpart⟩
    · exact .inl rfl
    · exact .inr ⟨part, hpart, hx⟩
  · rintro (rfl | ⟨part, hpart, hx⟩)
    · exact .refl x
    · exact hx.of_mem_parts hpart

end Parts

/-! ### Parts of a value -/

namespace Value

/-- The values that a list or a mapping holds. -/
def parts : Value → List Value
  | list items => items
  | map fields => fields.map (·.2)
  | _ => []

theorem sizeOf_lt_of_mem_parts {v w : Value} (h : w ∈ v.parts) : sizeOf w < sizeOf v := by
  cases v with
  | list items =>
    have hitem : sizeOf w < sizeOf items := List.sizeOf_lt_of_mem h
    simp only [list.sizeOf_spec]
    omega
  | map fields =>
    have hfield : sizeOf w < sizeOf fields := sizeOf_lt_of_mem_map_snd h
    simp only [map.sizeOf_spec]
    omega
  | _ => exact absurd h List.not_mem_nil

/-- Whether `w` **stands within** `v`, at some depth; a value stands within itself. -/
abbrev Within (w v : Value) : Prop :=
  Parts.Within parts w v

end Value

end Stencil
