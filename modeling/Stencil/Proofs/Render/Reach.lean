import Stencil.Proofs.Render.Inclusion
import Stencil.Proofs.Tag.Slices

/-!
# What a template reaches

A render of a template comes to the partials that it includes, to those which they include, and so
on; to no others. So nothing about a registry matters to the render but these partials:

* `Registry.Needs` — the names of partials in the tags of the templates that are reached;
* `Registry.AcyclicFrom` — no such name lies on a cycle of inclusions. Cycles elsewhere do no harm;
* `Registry.rank_lt_of_needs`, `Registry.rank_lt_size_of_needs` — then the rank goes down along the
  inclusions that are reached, and bounds how deep partials nest;
* `Registry.AcyclicFrom.of_agree` — a registry that agrees on the needed names needs no others, and
  no cycle can be reached in it either.
-/

namespace Stencil

theorem Template.includes_iff {t : Template} {name : Text} :
    t.Includes name ↔ .inclusion name ∈ tagsIn t.source :=
  List.mem_map.symm

/-- Which partials a template includes is read off its source. -/
theorem Template.includes_congr {t u : Template} (h : t.source = u.source) {name : Text} :
    t.Includes name ↔ u.Includes name := by
  rw [Template.includes_iff, Template.includes_iff, h]

namespace Registry

/-- Whether `u` is the partial that a tag of `t` includes. -/
def Leads (r : Registry) (t u : Template) : Prop :=
  ∃ name, t.Includes name ∧ r.get? name = some u

/-- Whether inclusions lead from a template to another one, or it is the same one. -/
abbrev Reaches (r : Registry) : Template → Template → Prop :=
  Relation.ReflTransGen r.Leads

/-- Whether a tag of `t`, or of a partial that inclusions lead to, names the partial `name`. -/
def Needs (r : Registry) (t : Template) (name : Text) : Prop :=
  ∃ u, r.Reaches t u ∧ u.Includes name

/-- Whether **no cycle of inclusions can be reached** from a template. -/
def AcyclicFrom (r : Registry) (t : Template) : Prop :=
  ∀ name, r.Needs t name → ¬ Relation.TransGen r.Includes name name

theorem Acyclic.acyclicFrom {r : Registry} (h : r.Acyclic) (t : Template) : r.AcyclicFrom t :=
  fun name _ => h name

section Needs

variable {r : Registry} {t u : Template} {name other : Text}

theorem Needs.reaches (h : r.Needs t name) (hu : r.get? name = some u) : r.Reaches t u := by
  obtain ⟨v, hv, hincludes⟩ := h
  exact hv.tail ⟨name, hincludes, hu⟩

/-- What a needed partial includes is needed too. -/
theorem Needs.trans (h : r.Needs t name) (hu : r.get? name = some u) (hother : u.Includes other) :
    r.Needs t other :=
  ⟨u, h.reaches hu, hother⟩

/-- What is reached beyond the template itself is registered. -/
theorem eq_or_get?_of_reaches (h : r.Reaches t u) : u = t ∨ ∃ name, r.get? name = some u := by
  rcases h.cases_tail with heq | ⟨v, -, name, -, hu⟩
  · exact .inl heq
  · exact .inr ⟨name, hu⟩

theorem needs_of_includes (h : t.Includes name) : r.Needs t name :=
  ⟨t, .refl, h⟩

theorem rank_lt_of_needs (hr : r.AcyclicFrom t) (hname : r.Needs t name)
    (hu : r.get? name = some u) (hother : u.Includes other) {v : Template}
    (hv : r.get? other = some v) : r.rank other < r.rank name :=
  rank_lt_of_not_transGen ⟨u, hu, hother⟩ (hr other (hname.trans hu hother)) hv

theorem rank_lt_size_of_needs (hr : r.AcyclicFrom t) (hname : r.Needs t name)
    (hu : r.get? name = some u) : r.rank name < r.size :=
  rank_lt_size_of_not_transGen (hr name hname) hu

end Needs

/-! ### Registries that agree where it matters -/

/-- Whether two registries have the same source, or both none, under a name. -/
def SameSource (p q : Registry) (name : Text) : Prop :=
  (p.get? name).map Template.source = (q.get? name).map Template.source

theorem SameSource.symm {p q : Registry} {name : Text} (h : p.SameSource q name) :
    q.SameSource p name :=
  Eq.symm h

theorem SameSource.rel {p q : Registry} {name : Text} (h : p.SameSource q name) :
    Option.Rel (fun u v : Template => u.source = v.source) (p.get? name) (q.get? name) := by
  rw [SameSource] at h
  cases hu : p.get? name with
  | none =>
    rw [hu, Option.map_none] at h
    rw [Option.map_eq_none_iff.1 h.symm]
    exact .none
  | some u =>
    rw [hu, Option.map_some] at h
    obtain ⟨v, hv, hsource⟩ := Option.map_eq_some_iff.1 h.symm
    rw [hv]
    exact .some hsource.symm

theorem SameSource.exists_get? {p q : Registry} {name : Text} (h : p.SameSource q name)
    {u : Template} (hu : p.get? name = some u) :
    ∃ v, q.get? name = some v ∧ u.source = v.source := by
  have hrel := h.rel
  rw [hu] at hrel
  cases hv : q.get? name with
  | none =>
    rw [hv] at hrel
    cases hrel
  | some v =>
    rw [hv] at hrel
    cases hrel with
    | some hsource => exact ⟨v, rfl, hsource⟩

section Agree

variable {p q : Registry} {t : Template} (h : ∀ name, p.Needs t name → p.SameSource q name)
include h

/-- Inclusions in one registry that begin at a needed name are inclusions in the other one. -/
theorem transGen_includes_of_agree {a b : Text} (ha : p.Needs t a)
    (hab : Relation.TransGen q.Includes a b) : Relation.TransGen p.Includes a b := by
  -- one inclusion at a time: what is needed includes the same names in both
  have step {a c : Text} (ha : p.Needs t a) (hac : q.Includes a c) :
      p.Includes a c ∧ p.Needs t c := by
    obtain ⟨v, hv, hincludes⟩ := hac
    obtain ⟨u, hu, hsource⟩ := (h a ha).symm.exists_get? hv
    have hc : u.Includes c := (Template.includes_congr hsource).1 hincludes
    exact ⟨⟨u, hu, hc⟩, ha.trans hu hc⟩
  induction hab using Relation.TransGen.head_induction_on with
  | single hab => exact .single (step ha hab).1
  | head hac _ ih =>
    obtain ⟨hpac, hc⟩ := step ha hac
    exact .head hpac (ih hc)

/-- No cycle of the other registry goes through a needed name either. -/
theorem AcyclicFrom.not_transGen_of_agree (hp : p.AcyclicFrom t) {name : Text}
    (hname : p.Needs t name) : ¬ Relation.TransGen q.Includes name name :=
  fun hcycle => hp name hname (transGen_includes_of_agree h hname hcycle)

/-- What is reached in the other registry is reached, but for the file that it comes from. -/
theorem exists_reaches_of_agree {v : Template} (hv : q.Reaches t v) :
    ∃ u, p.Reaches t u ∧ u.source = v.source := by
  induction hv with
  | refl => exact ⟨t, .refl, rfl⟩
  | tail _ hlead ih =>
    obtain ⟨name, hname, hw⟩ := hlead
    obtain ⟨u, hu, hsource⟩ := ih
    have hneeds : p.Needs t name := ⟨u, hu, (Template.includes_congr hsource).2 hname⟩
    obtain ⟨x, hx, hxsource⟩ := (h name hneeds).symm.exists_get? hw
    exact ⟨x, hneeds.reaches hx, hxsource.symm⟩

/-- **No cycle can be reached** in the other registry, because it needs no other names. -/
theorem AcyclicFrom.of_agree (hp : p.AcyclicFrom t) : q.AcyclicFrom t := by
  intro name hname
  obtain ⟨v, hv, hincludes⟩ := hname
  obtain ⟨u, hu, hsource⟩ := exists_reaches_of_agree h hv
  have hneeds : p.Needs t name := ⟨u, hu, (Template.includes_congr hsource).2 hincludes⟩
  exact hp.not_transGen_of_agree h hneeds

end Agree

end Registry

end Stencil
