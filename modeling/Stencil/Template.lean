import Stencil.NameMap

/-!
# Templates and registries

A template is a named source. Nothing is read out of the source beforehand, so every source makes a
template. A registry holds templates by their own names; adding one replaces the one of its name.
-/

namespace Stencil

/-- A **template**. -/
structure Template where
  name : Text
  source : Text
  /-- The file that the source was read from, if it was. -/
  path : Option Text
  deriving DecidableEq, Repr, Inhabited

/-- A template that comes from no file. -/
def Template.ofSource (name source : Text) : Template :=
  ⟨name, source, none⟩

/-- A **registry of templates**: each is found under its own name. -/
structure Registry where
  templates : NameMap Template
  named : ∀ name t, templates.get? name = some t → t.name = name

namespace Registry

instance : DecidableEq Registry := fun r s =>
  decidable_of_iff (r.templates = s.templates) <| by
    constructor
    · intro h
      cases r
      cases s
      simp_all
    · exact fun h => h ▸ rfl

/-- The registry without templates. -/
def empty : Registry :=
  ⟨∅, by simp [NameMap.get?, NameMap.find?, EmptyCollection.emptyCollection, NameMap.empty]⟩

instance : EmptyCollection Registry := ⟨empty⟩

instance : Inhabited Registry := ⟨∅⟩

/-- The registry with `t`, instead of a template of the same name. -/
def insert (r : Registry) (t : Template) : Registry where
  templates := r.templates.insert t.name t
  named name u h := by
    rw [NameMap.get?_insert] at h
    split at h
    · next hname => exact Option.some.inj h ▸ hname.symm
    · exact r.named name u h

/-- The template of that name. -/
def get? (r : Registry) (name : Text) : Option Template :=
  r.templates.get? name

/-- Whether there is a template of that name. -/
def contains (r : Registry) (name : Text) : Bool :=
  r.templates.contains name

/-- The names of the templates, in rising order. -/
def names (r : Registry) : List Text :=
  r.templates.keys

/-- How many templates there are. -/
def size (r : Registry) : Nat :=
  r.templates.size

/-- A registry of sources by names; of two with one name the later wins. -/
def ofSources (sources : List (Text × Text)) : Registry :=
  sources.foldl (fun r s => r.insert (.ofSource s.1 s.2)) ∅

@[simp] theorem get?_insert (r : Registry) (t : Template) (name : Text) :
    (r.insert t).get? name = if name = t.name then some t else r.get? name :=
  NameMap.get?_insert ..

theorem name_of_get? {r : Registry} {name : Text} {t : Template} (h : r.get? name = some t) :
    t.name = name :=
  r.named name t h

end Registry

end Stencil
