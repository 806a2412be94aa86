import Stencil.Proofs.Render.Reach

/-!
# What a render depends on

A render looks up names, and partials, and nothing else of the data that it is given. The names are
those with which the paths in its tags begin, and `else` where a tag of that word stands; a round of
an `each` block binds four names and leaves all others to the scope around it, so scopes that agree
on some names still do so in every round (`Scope.AgreeOn.iteration`).

The argument goes from one section to a whole render:

* `renderSection_congr` — a section is rendered alike in scopes that agree on the names in its tags,
  if its partials are. A section of it has no tags of its own (`tagsIn_sections_subset`), so this is
  an induction on the length of the text;
* `includedAt_congr` — the partials are rendered alike if their sources agree, because along
  inclusions the rank goes down;
* `renderTemplate_eq_of_agreeOn` — so only the names and the partials that are reached matter, and
  whatever else is added changes nothing.
-/

namespace Stencil

/-! ### Names in tags -/

/-- The name with which a path begins. -/
def Text.firstPiece (path : Text) : Text :=
  (path.pieces '.').headD []

/-- The name whose value a tag asks for. -/
def Tag.reads? : Tag → Option Text
  | .opening _ path => some path.firstPiece
  | .value path => some path.firstPiece
  | .alternative => some elseWord
  | .inclusion _ => none
  | .closing _ => none

/-- The names for whose values the tags of a template ask. -/
def Template.reads (t : Template) : List Text :=
  (tagsIn t.source).filterMap Tag.reads?

/-- Whether a tag of `t`, or of a partial that inclusions lead to, asks for the value of a name. -/
def Registry.Reads (r : Registry) (t : Template) (name : Text) : Prop :=
  ∃ u, r.Reaches t u ∧ name ∈ u.reads

/-! ### Scopes that agree -/

/-- Whether two scopes give some names the same values. -/
def Scope.AgreeOn (names : Text → Prop) (s s' : Scope) : Prop :=
  ∀ name, names name → s.get name = s'.get name

namespace Scope.AgreeOn

variable {names : Text → Prop} {s s' : Scope}

/-- **Scopes that agree** still do so in a round of an `each` block. -/
theorem iteration (h : s.AgreeOn names s') (item : Value) (index count : Nat) :
    (Scope.iteration s item index count).AgreeOn names (Scope.iteration s' item index count) := by
  intro name hname
  rw [get, get, h name hname]

theorem lookup {path : Text} (h : s.AgreeOn names s') (hpath : names path.firstPiece) :
    s.lookup path = s'.lookup path := by
  rw [Scope.lookup, Scope.lookup]
  rw [Text.firstPiece] at hpath
  cases hpieces : path.pieces '.' with
  | nil => rfl
  | cons first rest =>
    rw [hpieces, List.headD_cons] at hpath
    simp only [h first hpath]

end Scope.AgreeOn

/-! ### Sections -/

/-- Whether two sections are the same but for their scopes, which agree on some names. -/
structure Section.AgreeOn (names : Text → Prop) (x x' : Section) : Prop where
  text : x.text = x'.text
  offset : x.offset = x'.offset
  scope : x.scope.AgreeOn names x'.scope

/-- A block leads to the same sections in scopes that agree. -/
theorem Block.forall₂_sections {names : Text → Prop} {s s' : Scope} (h : s.AgreeOn names s')
    (b : Block) (offset : Nat) (value : Value) :
    List.Forall₂ (Section.AgreeOn names) (b.sections offset value s)
      (b.sections offset value s') := by
  have same (text : Text) (offset : Nat) :
      Section.AgreeOn names ⟨text, offset, s⟩ ⟨text, offset, s'⟩ := ⟨rfl, rfl, h⟩
  unfold sections
  cases b.kind with
  | each =>
    -- all rounds hide the same names, so their scopes agree as well
    simp only [List.mapIdx_eq_zipIdx_map, List.forall₂_map_left_iff, List.forall₂_map_right_iff]
    exact List.forall₂_same.2 fun round _ => ⟨rfl, rfl, h.iteration _ _ _⟩
  | cond =>
    simp only
    split
    · exact .cons (same ..) .nil
    · rw [List.forall₂_map_left_iff, List.forall₂_map_right_iff]
      exact List.forall₂_same.2 fun other _ => same ..
  | notCond =>
    simp only
    split
    · exact .nil
    · exact .cons (same ..) .nil

/-- What is rendered alike for sections that agree, is so for all the sections of a block. -/
theorem Block.map_sections_congr {names : Text → Prop} {s s' : Scope} (h : s.AgreeOn names s')
    {b : Block} {offset : Nat} {value : Value} {f g : Section → Rendered}
    (hfg : ∀ x ∈ b.sections offset value s, ∀ x', x.AgreeOn names x' → f x = g x') :
    (b.sections offset value s).map f = (b.sections offset value s').map g := by
  rw [← List.forall₂_eq_eq_eq, List.forall₂_map_left_iff, List.forall₂_map_right_iff]
  have hboth := (List.forall₂_and_left _ _).2 ⟨fun x hx => hx, b.forall₂_sections h offset value⟩
  exact hboth.imp fun x x' hx => hfg x hx.1 x' hx.2

section Sections

variable {p q : Registry} {depth depth' : Nat} {t t' : Template} {names : Text → Prop}

/-- Whether a partial of `p` and one of `q` are rendered alike at the given depths. -/
def RenderedAlike (p q : Registry) (depth depth' : Nat) (names : Text → Prop) (u v : Template) :
    Prop :=
  ∀ s s' : Scope, s.AgreeOn names s' → includedAt p depth u s = includedAt q depth' v s'

/-- **A section is rendered alike** in scopes that agree on the names in its tags, if the partials
are which it includes. -/
theorem renderSection_congr
    (ht : ∀ fault start stop, t.diagnostic fault start stop = t'.diagnostic fault start stop)
    {x x' : Section} (hx : x.AgreeOn names x')
    (hreads : ∀ tag ∈ tagsIn x.text, ∀ name, tag.reads? = some name → names name)
    (hincludes : ∀ name, .inclusion name ∈ tagsIn x.text →
      Option.Rel (RenderedAlike p q depth depth' names) (p.get? name) (q.get? name)) :
    renderSection p depth t x = renderSection q depth' t' x' := by
  -- by length, as the renderer goes on: with the sections of a block and with what is left behind
  induction hn : x.text.length using Nat.strongRecOn generalizing x x' with
  | ind n ih =>
    subst hn
    have shorter {y y' : Section} (hy : y.AgreeOn names y') (hlt : y.text.length < x.text.length)
        (htags : tagsIn y.text ⊆ tagsIn x.text) :
        renderSection p depth t y = renderSection q depth' t' y' :=
      ih y.text.length hlt hy (fun tag htag => hreads tag (htags htag))
        (fun name hname => hincludes name (htags hname)) rfl
    obtain ⟨text, offset, s⟩ := x
    obtain ⟨text', offset', s'⟩ := x'
    obtain ⟨rfl, rfl, hs⟩ : text = text' ∧ offset = offset' ∧ s.AgreeOn names s' :=
      ⟨hx.text, hx.offset, hx.scope⟩
    cases h : nextTag text with
    | none => rw [renderSection_of_nextTag_none h, renderSection_of_nextTag_none h]
    | some k =>
      have hleft : nextTag (Section.mk text offset s).text = some k := h
      have hright : nextTag (Section.mk text offset s').text = some k := h
      have hlt := rest_lt_of_nextTag h
      have hbehind : renderSection p depth t (Section.behind ⟨text, offset, s⟩ k)
          = renderSection q depth' t' (Section.behind ⟨text, offset, s'⟩ k) :=
        shorter ⟨rfl, rfl, hs⟩ hlt (tagsIn_behind_subset h)
      have hlookup {path : Text} (htag : k.tag.reads? = some path.firstPiece) :
          s.lookup path = s'.lookup path :=
        hs.lookup (hreads k.tag (tag_mem_tagsIn h) _ htag)
      -- a tag that stands for itself writes the same, and so does what is left behind it
      have plain {y : Fragment} (hy : (k.token offset).plain? = some y)
          (hwrites : y.eval p (includedAt p depth) t s = y.eval q (includedAt q depth') t' s') :
          renderSection p depth t ⟨text, offset, s⟩
            = renderSection q depth' t' ⟨text, offset, s'⟩ := by
        rw [renderSection_plain hleft hy, renderSection_plain hright hy, hbehind]
        simp only [hwrites]
      cases htag : k.tag with
      | value path =>
        refine plain (y := .value path) (by rw [Token.plain?, tag_token, htag]) ?_
        rw [Fragment.eval, Fragment.eval, hlookup (by rw [htag]; rfl)]
      | alternative =>
        refine plain (y := .alternative) (by rw [Token.plain?, tag_token, htag]) ?_
        rw [Fragment.eval, Fragment.eval, hlookup (by rw [htag]; rfl)]
      | inclusion name =>
        refine plain (y := .inclusion name (k.token offset).start (k.token offset).stop)
          (by rw [Token.plain?, tag_token, htag]) ?_
        rw [Fragment.eval, Fragment.eval]
        have hpartials := hincludes name (htag ▸ tag_mem_tagsIn h)
        revert hpartials
        generalize p.get? name = u?
        generalize q.get? name = v?
        rintro (halike | _)
        · exact halike s s' hs
        · exact congrArg Rendered.ofDiagnostic (ht ..)
      | closing kind =>
        rw [renderSection_closing hleft htag, renderSection_closing hright htag, hbehind]
      | opening kind path =>
        rw [renderSection_opening hleft htag, renderSection_opening hright htag]
        simp only [ht, hlookup (show k.tag.reads? = some path.firstPiece by rw [htag]; rfl)]
        have hrest : renderSection p depth t
              (Section.behindBlock ⟨text, offset, s⟩ k (Block.scan kind k.rest))
            = renderSection q depth' t'
              (Section.behindBlock ⟨text, offset, s'⟩ k (Block.scan kind k.rest)) := by
          refine shorter ⟨rfl, rfl, hs⟩ ?_ ?_
          · exact Nat.lt_of_le_of_lt (Block.length_rest_le kind k.rest) hlt
          · exact List.Subset.trans (tagsIn_rest_subset kind k.rest) (tagsIn_behind_subset h)
        have hparts (offset : Nat) (value : Value) :
            ((Block.scan kind k.rest).sections offset value s).map (renderSection p depth t)
              = ((Block.scan kind k.rest).sections offset value s').map
                  (renderSection q depth' t') := by
          refine Block.map_sections_congr hs fun y hy y' hagree => shorter hagree ?_ ?_
          · have hbody := Block.length_of_mem_sections hy
            have hscan := Block.length_body_le kind k.rest
            exact Nat.lt_of_le_of_lt (Nat.le_trans hbody hscan) hlt
          · have hbody := List.Subset.trans (tagsIn_sections_subset hy)
              (tagsIn_body_subset kind k.rest)
            exact List.Subset.trans hbody (tagsIn_behind_subset h)
        rw [hparts, hrest]

end Sections

/-! ### Whole renders -/

section Renders

variable {p q : Registry} {t : Template} (hp : p.AcyclicFrom t)
  (hpartials : ∀ name, p.Needs t name → p.SameSource q name)
include hpartials

/-- A template that is reached is rendered alike, if the partials are which it includes. -/
theorem renderSource_congr {u v : Template} (hu : p.Reaches t u) (hname : u.name = v.name)
    (hsource : u.source = v.source) {depth depth' : Nat}
    (halike : ∀ name w x, u.Includes name → p.get? name = some w → q.get? name = some x →
      RenderedAlike p q depth depth' (p.Reads t) w x)
    {s s' : Scope} (hs : s.AgreeOn (p.Reads t) s') :
    renderSection p depth u ⟨u.source, 0, s⟩ = renderSection q depth' v ⟨v.source, 0, s'⟩ := by
  have hsection : Section.AgreeOn (p.Reads t) ⟨u.source, 0, s⟩ ⟨v.source, 0, s'⟩ :=
    ⟨hsource, rfl, hs⟩
  refine renderSection_congr ?_ hsection ?_ ?_
  · intro fault start stop
    rw [Template.diagnostic, Template.diagnostic, hname, hsource]
  · exact fun tag htag name hreads => ⟨u, hu, List.mem_filterMap.2 ⟨tag, htag, hreads⟩⟩
  · intro name htag
    have hincludes : u.Includes name := Template.includes_iff.2 htag
    -- the same name is missing in both registries, or in none
    have hrel := (hpartials name ⟨u, hu, hincludes⟩).rel
    have hwx := halike name
    revert hrel hwx
    generalize p.get? name = w?
    generalize q.get? name = x?
    rintro (_ | _) hwx
    · exact .some (hwx _ _ hincludes rfl rfl)
    · exact .none

include hp

/-- **A partial that is reached is rendered alike** at all depths beyond its ranks. -/
theorem includedAt_congr {name : Text} (hneeds : p.Needs t name) {u v : Template}
    (hu : p.get? name = some u) (hv : q.get? name = some v) {depth depth' : Nat}
    (hdepth : p.rank name < depth) (hdepth' : q.rank name < depth') :
    RenderedAlike p q depth depth' (p.Reads t) u v := by
  induction depth generalizing name u v depth' with
  | zero => omega
  | succ depth ih =>
    obtain ⟨depth', rfl⟩ : ∃ d, depth' = d + 1 := ⟨depth' - 1, by omega⟩
    have hsource : u.source = v.source := by
      obtain ⟨v', hv', hsource⟩ := (hpartials name hneeds).exists_get? hu
      rw [hsource, Option.some.inj (hv.symm.trans hv')]
    have hname : u.name = v.name := by
      rw [Registry.name_of_get? hu, Registry.name_of_get? hv]
    intro s s' hs
    rw [includedAt, includedAt]
    refine renderSource_congr hpartials (hneeds.reaches hu) hname hsource ?_ hs
    intro other w x hother hw hx
    have hneedsOther := hneeds.trans hu hother
    -- in both registries the rank goes down along the inclusion
    have hrank : p.rank other < p.rank name := Registry.rank_lt_of_needs hp hneeds hu hother hw
    have hrank' : q.rank other < q.rank name :=
      Registry.rank_lt_of_not_transGen ⟨v, hv, (Template.includes_congr hsource).1 hother⟩
        (hp.not_transGen_of_agree hpartials hneedsOther) hx
    exact ih hneedsOther hw hx (by omega) (by omega)

/-- **A render depends** on the names and the partials that it reaches only, whatever the scope. -/
theorem renderTemplate_congr {s s' : Scope} (hs : s.AgreeOn (p.Reads t) s') :
    renderTemplate p t s = renderTemplate q t s' := by
  refine renderSource_congr hpartials .refl rfl rfl ?_ hs
  intro name u v hincludes hu hv
  have hneeds : p.Needs t name := Registry.needs_of_includes hincludes
  have hrank : p.rank name < p.size := Registry.rank_lt_size_of_needs hp hneeds hu
  have hrank' : q.rank name < q.size :=
    Registry.rank_lt_size_of_not_transGen (hp.not_transGen_of_agree hpartials hneeds) hv
  have hbound := p.size_le_inclusionBound s
  have hbound' := q.size_le_inclusionBound s'
  exact includedAt_congr hp hpartials hneeds hu hv (by omega) (by omega)

end Renders

/-! ### What else is added -/

namespace Scope.AgreeOn

variable {names : Text → Prop}

theorem refl (names : Text → Prop) (s : Scope) : s.AgreeOn names s :=
  fun _ _ => rfl

/-- A binding of a page is not seen where its name is not read. -/
theorem insert_page {name : Text} (h : ¬ names name) (page globals : Context) (value : Value) :
    (Scope.root (page.insert name value) globals).AgreeOn names (.root page globals) := by
  intro other hother
  have hne : other ≠ name := fun heq => h (heq ▸ hother)
  rw [get, get, NameMap.get?_insert, if_neg hne]

/-- Nor is a global one. -/
theorem insert_globals {name : Text} (h : ¬ names name) (page globals : Context) (value : Value) :
    (Scope.root page (globals.insert name value)).AgreeOn names (.root page globals) := by
  intro other hother
  have hne : other ≠ name := fun heq => h (heq ▸ hother)
  rw [get, get, NameMap.get?_insert, if_neg hne]

end Scope.AgreeOn

/-- A partial that is not needed makes no difference to those which are. -/
theorem Registry.sameSource_insert {r : Registry} {t u : Template} (h : ¬ r.Needs t u.name)
    {name : Text} (hname : r.Needs t name) : r.SameSource (r.insert u) name := by
  have hne : name ≠ u.name := fun heq => h (heq ▸ hname)
  rw [SameSource, get?_insert, if_neg hne]

/-- **A render depends only on the names that it mentions**: on the values of the names in the tags
of the template and of the partials that it reaches, and on the sources of these partials. So names
and partials that are mentioned in none of them change nothing when they are added. -/
theorem renderTemplate_eq_of_agreeOn {p q : Registry} {t : Template} (hp : p.AcyclicFrom t)
    (hpartials : ∀ name, p.Needs t name → p.SameSource q name)
    {page globals page' globals' : Context}
    (hnames : ∀ name, p.Reads t name →
      (Scope.root page globals).get name = (Scope.root page' globals').get name) :
    renderTemplate p t (.root page globals) = renderTemplate q t (.root page' globals') ∧
      (∀ name value, ¬ p.Reads t name →
        renderTemplate p t (.root (page.insert name value) globals)
            = renderTemplate p t (.root page globals) ∧
          renderTemplate p t (.root page (globals.insert name value))
            = renderTemplate p t (.root page globals)) ∧
      ∀ u, ¬ p.Needs t u.name →
        renderTemplate (p.insert u) t (.root page globals)
          = renderTemplate p t (.root page globals) := by
  have hself (name : Text) (_ : p.Needs t name) : p.SameSource p name := rfl
  refine ⟨renderTemplate_congr hp hpartials hnames, fun name value hname => ⟨?_, ?_⟩, ?_⟩
  -- what is added is neither read nor needed, so the two still agree
  · exact renderTemplate_congr hp hself (.insert_page hname page globals value)
  · exact renderTemplate_congr hp hself (.insert_globals hname page globals value)
  · intro u hu
    have hinsert (name : Text) (hname : p.Needs t name) : p.SameSource (p.insert u) name :=
      Registry.sameSource_insert hu hname
    exact (renderTemplate_congr hp hinsert (.refl _ _)).symm

/-! ### A page with a title -/

/-- A page that shows a title above a row. -/
def titledPage : Template :=
  .ofSource "page".toList "\x7b\x7btitle\x7d\x7d\x7b\x7b> row\x7d\x7d".toList

/-- A partial that includes itself. -/
def endless : Template :=
  .ofSource "endless".toList "\x7b\x7b> endless\x7d\x7d".toList

theorem eq_of_needs_titledPage {name : Text} (h : rowsAndCells.Needs titledPage name) :
    name = "row".toList ∨ name = "cell".toList := by
  have htags : tagsIn titledPage.source
      = [.value "title".toList, .inclusion "row".toList] := by decide +kernel
  obtain ⟨u, hu, hincludes⟩ := h
  rcases Registry.eq_or_get?_of_reaches hu with rfl | ⟨other, hother⟩
  · rw [Template.includes_iff, htags] at hincludes
    exact .inl (by simpa using hincludes)
  · exact .inr (rowsAndCells_includes ⟨u, hother, hincludes⟩).2

theorem eq_of_reads_titledPage {name : Text} (h : rowsAndCells.Reads titledPage name) :
    name = "title".toList ∨ name = "this".toList := by
  have hpage : titledPage.reads = ["title".toList] := by decide +kernel
  have hrow : (Template.ofSource "row".toList "[\x7b\x7b> cell\x7d\x7d]".toList).reads
      = [] := by decide +kernel
  have hcell : (Template.ofSource "cell".toList "\x7b\x7bthis\x7d\x7d".toList).reads
      = ["this".toList] := by decide +kernel
  obtain ⟨u, hu, hreads⟩ := h
  -- it is read by the page itself, or by one of the two partials
  rcases Registry.eq_or_get?_of_reaches hu with rfl | ⟨other, hother⟩
  · rw [hpage] at hreads
    exact .inl (List.mem_singleton.1 hreads)
  · rw [rowsAndCells, Registry.ofSources, List.foldl_cons, List.foldl_cons, List.foldl_nil,
      Registry.get?_insert, Registry.get?_insert] at hother
    split at hother
    · rw [← Option.some.inj hother, hcell] at hreads
      exact .inr (List.mem_singleton.1 hreads)
    · split at hother
      · rw [← Option.some.inj hother, hrow] at hreads
        cases hreads
      · cases hother

theorem sameSource_endless (name : Text) (hname : rowsAndCells.Needs titledPage name) :
    rowsAndCells.SameSource (rowsAndCells.insert endless) name := by
  refine Registry.sameSource_insert (fun h => ?_) hname
  rcases eq_of_needs_titledPage h with h | h
  · exact absurd h (by decide)
  · exact absurd h (by decide)

/-- The page is the same whether its title is its own or a global one, and beside a partial without
end that it does not include. -/
theorem renderTemplate_titledPage :
    let title : Context := .ofFields [("title".toList, .bool true)]
    rowsAndCells.AcyclicFrom titledPage ∧
      (∀ name, rowsAndCells.Needs titledPage name →
        rowsAndCells.SameSource (rowsAndCells.insert endless) name) ∧
      (∀ name, rowsAndCells.Reads titledPage name →
        (Scope.root title ∅).get name
          = (Scope.root ∅ (title.insert "draft".toList .null)).get name) ∧
      renderTemplate rowsAndCells titledPage (.root title ∅)
        = renderTemplate (rowsAndCells.insert endless) titledPage
            (.root ∅ (title.insert "draft".toList .null)) := by
  intro title
  have hacyclic := acyclic_rowsAndCells.acyclicFrom titledPage
  have hnames (name : Text) (hname : rowsAndCells.Reads titledPage name) :
      (Scope.root title ∅).get name
        = (Scope.root ∅ (title.insert "draft".toList .null)).get name := by
    rcases eq_of_reads_titledPage hname with rfl | rfl
    · rfl
    · rfl
  exact ⟨hacyclic, sameSource_endless, hnames,
    (renderTemplate_eq_of_agreeOn hacyclic sameSource_endless hnames).1⟩

end Stencil
