import Mathlib.Data.Finset.Card
import Mathlib.Logic.Relation
import Stencil.Proofs.Render.Marks
import Stencil.Proofs.Render.Meaning

/-!
# Partials without cycles

The tree of a template leaves open what partials write. If no partial includes itself, not even by
way of others, then the trees settle it: there is one meaning of templates in which each writes what
its tree writes, and this is the renderer's (`isMeaning_iff_eq_renderTemplate`).

* `Registry.Acyclic` — no chain of inclusions leads from a partial back to it;
* `Registry.rank_lt` — along an inclusion the number of partials that can still be reached goes
  down, so it bounds how deep partials nest;
* `evalAll_congr` — what a tree writes depends on the partials that it mentions only;
* `includedAt_eq_of_rank_lt` — beyond the rank of a partial, what it writes does not depend on how
  deep partials may nest.
-/

namespace Stencil

/-! ### Inclusions -/

/-- Whether a template has a tag that includes a partial of that name. -/
def Template.Includes (t : Template) (name : Text) : Prop :=
  ∃ s ∈ tags t.source, s.tag = .inclusion name

instance (t : Template) (name : Text) : Decidable (t.Includes name) :=
  inferInstanceAs (Decidable (∃ s ∈ tags t.source, s.tag = .inclusion name))

/-- The tree of a template names no partial that the template does not include. -/
theorem Template.includes_of_mem_marks {t : Template} {name : Text} {start stop : Nat}
    (h : ⟨.inclusion name, start, stop⟩ ∈ marksAll t.tree) : t.Includes name := by
  obtain ⟨k, hk, hm⟩ := mem_of_mem_marksAll_treeOf h
  obtain ⟨s, hs, htag⟩ := exists_of_mem_tokensOf hk
  exact ⟨s, hs, htag.trans (congrArg Mark.tag hm).symm⟩

namespace Registry

/-- Whether the template of the name `a` includes a partial of the name `b`. -/
def Includes (r : Registry) (a b : Text) : Prop :=
  ∃ t, r.get? a = some t ∧ t.Includes b

/-- Whether **no partial includes itself**, directly or by way of others. -/
def Acyclic (r : Registry) : Prop :=
  ∀ name, ¬ Relation.TransGen r.Includes name name

/-- A registry in which a number goes down along inclusions has no cycle. -/
theorem acyclic_of_rank {r : Registry} (rank : Text → Nat)
    (h : ∀ a b, r.Includes a b → rank b < rank a) : r.Acyclic := by
  have further (a b : Text) (hab : Relation.TransGen r.Includes a b) : rank b < rank a := by
    induction hab with
    | single hb => exact h _ _ hb
    | tail _ hbc ih => exact Nat.lt_trans (h _ _ hbc) ih
  intro name hcycle
  exact Nat.lt_irrefl _ (further name name hcycle)

open Classical in
/-- The templates to which inclusions lead from a name. -/
noncomputable def reachable (r : Registry) (name : Text) : Finset Text :=
  {other ∈ r.names.toFinset | Relation.TransGen r.Includes name other}

/-- How many templates there are to which inclusions lead from a name. -/
noncomputable def rank (r : Registry) (name : Text) : Nat :=
  (r.reachable name).card

theorem mem_names_of_get? {r : Registry} {name : Text} {t : Template} (h : r.get? name = some t) :
    name ∈ r.names :=
  NameMap.mem_keys_of_get? h

theorem mem_reachable {r : Registry} {name other : Text} :
    other ∈ r.reachable name ↔ other ∈ r.names ∧ Relation.TransGen r.Includes name other := by
  classical
  rw [reachable, Finset.mem_filter, List.mem_toFinset]

/-- Fewer templates can be reached from one that is included and that no inclusions lead back to. -/
theorem rank_lt_of_not_transGen {r : Registry} {a b : Text} (hab : r.Includes a b)
    (hcycle : ¬ Relation.TransGen r.Includes b b) {t : Template} (hb : r.get? b = some t) :
    r.rank b < r.rank a := by
  -- what `b` reaches, `a` reaches too, and `b` itself besides
  refine Finset.card_lt_card (Finset.ssubset_iff_of_subset ?_ |>.2 ⟨b, ?_, ?_⟩)
  · intro c hc
    rw [mem_reachable] at hc ⊢
    exact ⟨hc.1, .head hab hc.2⟩
  · exact mem_reachable.2 ⟨mem_names_of_get? hb, .single hab⟩
  · intro hmem
    exact hcycle (mem_reachable.1 hmem).2

/-- A template that no inclusions lead back to cannot be reached from itself, so not all can. -/
theorem rank_lt_size_of_not_transGen {r : Registry} {name : Text}
    (hcycle : ¬ Relation.TransGen r.Includes name name) {t : Template}
    (ht : r.get? name = some t) : r.rank name < r.size := by
  -- what it can reach are names of the registry, and it is not one of them itself
  have hssubset : r.reachable name ⊂ r.names.toFinset := by
    refine Finset.ssubset_iff_of_subset (fun c hc => ?_) |>.2 ⟨name, ?_, ?_⟩
    · exact List.mem_toFinset.2 (mem_reachable.1 hc).1
    · exact List.mem_toFinset.2 (mem_names_of_get? ht)
    · intro hmem
      exact hcycle (mem_reachable.1 hmem).2
  calc r.rank name
      < r.names.toFinset.card := Finset.card_lt_card hssubset
    _ ≤ r.names.length := List.toFinset_card_le _
    _ = r.size := List.length_map _

/-- Without cycles, fewer templates can be reached from one that is included. -/
theorem rank_lt {r : Registry} (h : r.Acyclic) {a b : Text} (hab : r.Includes a b)
    {t : Template} (hb : r.get? b = some t) : r.rank b < r.rank a :=
  rank_lt_of_not_transGen hab (h b) hb

/-- Without cycles, a template cannot be reached from itself, so not all can. -/
theorem rank_lt_size {r : Registry} (h : r.Acyclic) {name : Text} {t : Template}
    (ht : r.get? name = some t) : r.rank name < r.size :=
  rank_lt_size_of_not_transGen (h name) ht

/-- A render has room for as many partials inside each other as there are. -/
theorem size_le_inclusionBound (r : Registry) (scope : Scope) :
    r.size ≤ inclusionBound r scope :=
  Nat.le_mul_of_pos_right _ (Nat.succ_pos _)

end Registry

/-! ### What a tree needs to know of partials -/

section Congr

variable {partials : Registry} {f g : Template → Scope → Rendered} {template : Template}

/-- Whether two meanings agree on the partials that some marks name. -/
def AgreeOn (partials : Registry) (f g : Template → Scope → Rendered) (marks : List Mark) : Prop :=
  ∀ name start stop, ⟨.inclusion name, start, stop⟩ ∈ marks →
    ∀ t, partials.get? name = some t → ∀ scope, f t scope = g t scope

theorem AgreeOn.mono {ms ns : List Mark} (h : AgreeOn partials f g ms) (hsub : ns ⊆ ms) :
    AgreeOn partials f g ns :=
  fun name start stop hmem => h name start stop (hsub hmem)

mutual

theorem Fragment.eval_congr (x : Fragment) (h : AgreeOn partials f g x.marks) (scope : Scope) :
    x.eval partials f template scope = x.eval partials g template scope := by
  cases x with
  | text t => rw [Fragment.eval, Fragment.eval]
  | value path => rw [Fragment.eval, Fragment.eval]
  | alternative => rw [Fragment.eval, Fragment.eval]
  | inclusion name start stop =>
    rw [Fragment.eval, Fragment.eval]
    cases ht : partials.get? name with
    | none => rfl
    | some t =>
      refine h name start stop ?_ t ht scope
      rw [Fragment.marks]
      exact List.mem_singleton_self _
  | each head body =>
    have hbody : AgreeOn partials f g (marksAll body) := by
      rw [Fragment.marks] at h
      exact h.mono (List.subset_cons_self ..)
    rw [Fragment.eval, Fragment.eval]
    -- the rounds differ in their scopes only, and the body agrees in all of them
    congr 3
    funext index item
    exact evalAll_congr body hbody _
  | cond head first other? =>
    rw [Fragment.marks_cond] at h
    have hbranches := h.mono (List.subset_cons_self ..)
    have hfirst := evalAll_congr first (hbranches.mono (List.subset_append_left ..)) scope
    rw [Fragment.eval_cond, Fragment.eval_cond, hfirst]
    congr 2
    match other? with
    | none => rfl
    | some other =>
      exact evalAll_congr other (hbranches.mono (List.subset_append_right ..)) scope
  | notCond head body =>
    have hbody : AgreeOn partials f g (marksAll body) := by
      rw [Fragment.marks] at h
      exact h.mono (List.subset_cons_self ..)
    rw [Fragment.eval, Fragment.eval, evalAll_congr body hbody scope]

/-- **What fragments write** depends on the partials that they mention only. -/
theorem evalAll_congr (xs : List Fragment) (h : AgreeOn partials f g (marksAll xs))
    (scope : Scope) :
    evalAll partials f template xs scope = evalAll partials g template xs scope := by
  cases xs with
  | nil => rw [evalAll, evalAll]
  | cons x rest =>
    rw [marksAll_cons] at h
    rw [evalAll, evalAll, Fragment.eval_congr x (h.mono (List.subset_append_left ..)) scope,
      evalAll_congr rest (h.mono (List.subset_append_right ..)) scope]

end

/-- What a template writes depends on the partials that it includes only. -/
theorem evalAll_tree_congr
    (h : ∀ name t, template.Includes name → partials.get? name = some t →
      ∀ scope, f t scope = g t scope) (scope : Scope) :
    evalAll partials f template template.tree scope
      = evalAll partials g template template.tree scope :=
  evalAll_congr _ (fun name _ _ hmem t ht =>
    h name t (Template.includes_of_mem_marks hmem) ht) scope

/-- The meaning of partials, but that those write nothing which a template does not include. -/
def Template.needed (t : Template) (f : Template → Scope → Rendered) :
    Template → Scope → Rendered :=
  fun u scope => if t.Includes u.name then f u scope else ∅

theorem Template.needed_of_includes {t : Template} {f : Template → Scope → Rendered} {name : Text}
    {u : Template} (h : t.Includes name) (hu : partials.get? name = some u) (scope : Scope) :
    t.needed f u scope = f u scope := by
  rw [← Registry.name_of_get? hu] at h
  rw [needed, if_pos h]

/-- What a template writes needs no more of partials. -/
theorem Template.evalAll_needed (t : Template) (f : Template → Scope → Rendered) (scope : Scope) :
    evalAll partials (t.needed f) t t.tree scope = evalAll partials f t t.tree scope :=
  evalAll_tree_congr (fun _ _ hincludes hu scope' => needed_of_includes hincludes hu scope') scope

end Congr

/-! ### The one meaning of templates -/

/-- Whether every template **means what its tree writes**, under the same meaning of partials. -/
def IsMeaning (partials : Registry) (meaning : Template → Scope → Rendered) : Prop :=
  ∀ t scope, meaning t scope = evalAll partials meaning t t.tree scope

section Meanings

variable {partials : Registry} (hacyclic : partials.Acyclic)
include hacyclic

/-- A partial writes the same at all depths beyond its rank. -/
theorem includedAt_eq_of_rank_lt {name : Text} {t : Template} (ht : partials.get? name = some t)
    {depth depth' : Nat} (h : partials.rank name < depth) (h' : partials.rank name < depth')
    (scope : Scope) : includedAt partials depth t scope = includedAt partials depth' t scope := by
  induction depth generalizing name t depth' scope with
  | zero => omega
  | succ depth ih =>
    -- the rank goes down along inclusions, as both depths do
    obtain ⟨depth', rfl⟩ : ∃ d, depth' = d + 1 := ⟨depth' - 1, by omega⟩
    rw [includedAt_succ, includedAt_succ]
    refine evalAll_tree_congr (fun other u hother hu scope' => ?_) scope
    have hlt := Registry.rank_lt hacyclic ⟨t, ht, hother⟩ hu
    exact ih hu (by omega) (by omega) scope'

/-- The renderer's meaning is one. -/
theorem isMeaning_renderTemplate : IsMeaning partials (renderTemplate partials) := by
  intro t scope
  change includedAt partials (inclusionBound partials scope + 1) t scope = _
  rw [includedAt_succ]
  -- in the tree of `t` partials are rendered one level deeper than by themselves, which is enough
  refine evalAll_tree_congr (fun name u _ hu scope' => ?_) scope
  have hsize := Registry.rank_lt_size hacyclic hu
  refine includedAt_eq_of_rank_lt hacyclic hu ?_ (Nat.lt_succ_of_lt ?_) scope'
  · exact Nat.lt_of_lt_of_le hsize (partials.size_le_inclusionBound scope)
  · exact Nat.lt_of_lt_of_le hsize (partials.size_le_inclusionBound scope')

/-- Two meanings agree on partials. -/
theorem IsMeaning.eq_of_get? {f g : Template → Scope → Rendered} (hf : IsMeaning partials f)
    (hg : IsMeaning partials g) {name : Text} {t : Template} (ht : partials.get? name = some t)
    (scope : Scope) : f t scope = g t scope := by
  induction hn : partials.rank name using Nat.strongRecOn generalizing name t scope with
  | ind n ih =>
    subst hn
    -- both meanings write the same tree, with partials of lower rank
    rw [hf, hg]
    refine evalAll_tree_congr (fun other u hother hu scope' => ?_) scope
    exact ih (partials.rank other) (Registry.rank_lt hacyclic ⟨t, ht, hother⟩ hu) hu scope' rfl

/-- **Templates mean what the renderer writes**, and nothing else: it is the one meaning in which
each template writes what its tree writes. -/
theorem isMeaning_iff_eq_renderTemplate (meaning : Template → Scope → Rendered) :
    IsMeaning partials meaning ↔ meaning = renderTemplate partials := by
  constructor
  · intro h
    funext t scope
    -- `t` need not be a partial itself, but the partials that it includes are
    rw [h, isMeaning_renderTemplate hacyclic]
    refine evalAll_tree_congr (fun name u _ hu scope' => ?_) scope
    exact h.eq_of_get? hacyclic (isMeaning_renderTemplate hacyclic) hu scope'
  · intro h
    rw [h]
    exact isMeaning_renderTemplate hacyclic

end Meanings

/-! ### Rows and cells -/

/-- A partial for rows, and the one for cells that it includes. -/
def rowsAndCells : Registry :=
  .ofSources [("row".toList, "[\x7b\x7b> cell\x7d\x7d]".toList),
    ("cell".toList, "\x7b\x7bthis\x7d\x7d".toList)]

theorem rowsAndCells_includes {a b : Text} (h : rowsAndCells.Includes a b) :
    a = "row".toList ∧ b = "cell".toList := by
  have hrow : nextTag "[\x7b\x7b> cell\x7d\x7d]".toList = some ⟨"[".toList,
      .inclusion "cell".toList, "\x7b\x7b> cell\x7d\x7d".toList, "]".toList⟩ := rfl
  have hend : nextTag "]".toList = none := rfl
  have hcell : nextTag "\x7b\x7bthis\x7d\x7d".toList
      = some ⟨[], .value "this".toList, "\x7b\x7bthis\x7d\x7d".toList, []⟩ := rfl
  have hnil : nextTag [] = none := rfl
  -- the partials are looked up, and their tags are these
  obtain ⟨t, ht, s, hs, htag⟩ := h
  rw [rowsAndCells, Registry.ofSources, List.foldl_cons, List.foldl_cons, List.foldl_nil,
    Registry.get?_insert, Registry.get?_insert] at ht
  split at ht
  · -- the partial for cells includes nothing
    obtain rfl := Option.some.inj ht
    rw [Template.ofSource, tags_of_nextTag hcell, tags_of_nextTag_none hnil,
      List.mem_singleton] at hs
    rw [hs] at htag
    cases htag
  · split at ht
    · next hname =>
      obtain rfl := Option.some.inj ht
      rw [Template.ofSource, tags_of_nextTag hrow, tags_of_nextTag_none hend,
        List.mem_singleton] at hs
      rw [hs] at htag
      exact ⟨hname, (Tag.inclusion.inj htag).symm⟩
    · cases ht

theorem acyclic_rowsAndCells : rowsAndCells.Acyclic := by
  refine Registry.acyclic_of_rank (fun name => if name = "row".toList then 1 else 0) ?_
  intro a b h
  obtain ⟨rfl, rfl⟩ := rowsAndCells_includes h
  decide

/-- What the renderer makes of rows and of their cells is what the trees of both write. -/
theorem isMeaning_rowsAndCells :
    rowsAndCells.Acyclic ∧ IsMeaning rowsAndCells (renderTemplate rowsAndCells) :=
  ⟨acyclic_rowsAndCells, (isMeaning_iff_eq_renderTemplate acyclic_rowsAndCells _).2 rfl⟩

end Stencil
