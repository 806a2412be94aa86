import Stencil.Proofs.Site.Checking
import Stencil.Proofs.Site.Pages
import Stencil.Proofs.Site.Statics

/-!
# What a build leaves behind

In a tree without links, where the output directory keeps apart from that of static files, a build
that succeeds lays three things over one another: what was there, with the directories that are
needed; over it the pages; and over these what stands below the static directory. Of those, pages
and static files do not come from anything in the output. So building once more gives the same, and
finds that all of it is there.

* `Site.outcome` — these layers;
* `Site.outcome_of_view_eq` — over themselves they change nothing;
* `Site.Builds.view_eq` — writing the pages and copying the static files gives them;
* `Site.Builds.exists_builds` — a site that was built can be built again, which changes nothing,
  whether or not directories list their entries in the same order;
* `Site.build_overlays` — what this says about a loaded site that is built, and built again.
-/

namespace Stencil

/-- Layers that are laid over themselves change nothing. -/
theorem TreeView.onto_again (a b c d : TreeView) :
    a.onto (b.onto ((a.onto (b.onto (c.onto d))).onto d)) = a.onto (b.onto (c.onto d)) := by
  funext place
  simp only [onto]
  cases a place with
  | some item => rfl
  | none =>
    cases b place with
    | some item => rfl
    | none =>
      simp only [Option.none_or]
      rw [Option.or_assoc, Option.or_self]

namespace Site

variable {s : Site}

/-! ### Layers -/

/-- The directory of static files. -/
def staticDir (s : Site) : FilePath :=
  s.root.join s.config.staticDir

/-- **What is copied**: all that stands below the static directory, seen below that of the
output. -/
def copied (s : Site) (fs : FileSystem) : TreeView :=
  (s.made fs).moved (fs.placeOf s.staticDir) (fs.placeOf s.outputDir)

/-- **What a build leaves behind**: what was there, with the directories that are needed; over it
the pages; and over these what is copied, if there is a static directory. -/
def outcome (s : Site) (fs : FileSystem) (hasStatic : Bool) : TreeView :=
  (if hasStatic then s.copied fs else fun _ => none).onto ((s.written fs).onto (s.made fs))

/-- No file is made where none was. -/
theorem made_eq_file_iff {fs : FileSystem} {place : Place} {content : ByteArray} :
    s.made fs place = some (.file content) ↔ fs.view place = some (.file content) := by
  rw [made, TreeView.onto, Option.or_eq_some_iff]
  refine or_iff_left fun h => ?_
  by_cases hmem : place ∈ s.way fs
  · rw [TreeView.directories_of_mem hmem] at h
    cases h.2
  · rw [TreeView.directories_of_notMem hmem] at h
    cases h.2

section Apart

variable (hproper : s.HasProperPages) {fs fs' : FileSystem}
  (hapart : ¬ Comparable (fs.placeOf s.outputDir) (fs.placeOf s.staticDir))
include hproper hapart

/-- Below the static directory, a build leaves what was there. -/
theorem outcome_append (hasStatic : Bool) (names : List Text) :
    s.outcome fs hasStatic (fs.placeOf s.staticDir ++ names)
      = s.made fs (fs.placeOf s.staticDir ++ names) := by
  rw [outcome, TreeView.onto, TreeView.onto, written_eq_none hproper fs hapart, Option.none_or]
  cases hasStatic with
  | false => rfl
  | true =>
    rw [if_pos rfl, copied, TreeView.moved_append_eq_none hapart]
    rfl

/-- After a build, the same is below the static directory. -/
theorem made_append_of_view_eq (hgrows : fs.Grows fs') {hasStatic : Bool}
    (hview : fs'.view = s.outcome fs hasStatic) (names : List Text) :
    s.made fs' (fs.placeOf s.staticDir ++ names) = s.made fs (fs.placeOf s.staticDir ++ names) := by
  rw [made, TreeView.onto, hview, outcome_append hproper hapart, way_of_grows hgrows, made,
    TreeView.onto, Option.or_assoc, Option.or_self]

/-- **What a build leaves behind** is what it would leave behind again. -/
theorem outcome_of_view_eq (hgrows : fs.Grows fs') {hasStatic : Bool}
    (hview : fs'.view = s.outcome fs hasStatic) : s.outcome fs' hasStatic = fs'.view := by
  have hcopied : s.copied fs' = s.copied fs := by
    rw [copied, copied, hgrows.placeOf_eq, hgrows.placeOf_eq]
    exact TreeView.moved_congr (made_append_of_view_eq hproper hapart hgrows hview)
  have hwritten : s.written fs' = s.written fs := writtenBy_of_grows hgrows s.renderedPages
  rw [outcome, hcopied, hwritten, made, way_of_grows hgrows, hview]
  exact TreeView.onto_again ..

end Apart

/-! ### Writing and copying -/

/-- What is copied once the pages are written, in that order. -/
def assetDeeds (s : Site) (order : VisitOrder) (fs : FileSystem) : List Deed :=
  staticDeeds order fs s.staticDir s.outputDir

/-- Whether the pages of a site **are written** from `w` to `u`, in a tree without links in which
the output directory keeps apart from that of static files. -/
structure Writes (s : Site) (w u : World) : Prop where
  proper : s.HasProperPages
  unlinked : w.files.Unlinked
  apart : ¬ Comparable (w.files.placeOf s.outputDir) (w.files.placeOf s.staticDir)
  pages : (SiteAction.carryOutAll s.pagesDeeds).perform w = (.ok (), u)

/-- Whether a site **is built** from `w` to `v`: its pages are written to `u`, and from there the
static files are copied in that order. -/
structure Builds (s : Site) (order : VisitOrder) (w u v : World) : Prop extends Writes s w u where
  assets : (SiteAction.carryOutAll (s.assetDeeds order u.files)).perform u = (.ok (), v)

variable {w u v : World} {order : VisitOrder}

namespace Writes

variable (h : s.Writes w u)
include h

theorem grows : w.files.Grows u.files :=
  (SiteAction.grows_of_carryOutAll h.unlinked h.pages).1

theorem done : ∀ d ∈ s.pagesDeeds, d.Done u.files :=
  (SiteAction.grows_of_carryOutAll h.unlinked h.pages).2

/-- Once the pages are written, there is below the static directory what was there. -/
theorem view_append (names : List Text) :
    u.files.view (w.files.placeOf s.staticDir ++ names)
      = s.made w.files (w.files.placeOf s.staticDir ++ names) := by
  rw [view_of_pagesDeeds h.proper h.unlinked h.pages, TreeView.onto,
    written_eq_none h.proper w.files h.apart, Option.none_or]

/-- **How many static files are counted**: those that were below the static directory. -/
theorem staticCount_eq : staticCount u.files s.staticDir
    = if u.files.isDirectory s.staticDir then {names | ∃ content,
        w.files.view (w.files.placeOf s.staticDir ++ names) = some (.file content)}.ncard
      else 0 := by
  split
  · next hfound =>
    rw [Stencil.staticCount_eq h.grows.unlinked hfound, h.grows.placeOf_eq]
    simp only [h.view_append, made_eq_file_iff]
  · next hnone => rw [staticCount, if_neg hnone]

end Writes

namespace Builds

variable (h : s.Builds order w u v)

section

include h

theorem grows_assets : u.files.Grows v.files :=
  (SiteAction.grows_of_carryOutAll h.grows.unlinked h.assets).1

theorem grows_all : w.files.Grows v.files :=
  h.grows.trans h.grows_assets

/-- What was done for the pages is still done in the end. -/
theorem done_pages : ∀ d ∈ s.pagesDeeds, d.Done v.files :=
  fun d hd => (h.done d hd).of_grows h.grows.unlinked h.grows_assets

/-- Copying nothing leaves the files as they are. -/
theorem files_eq (hnone : u.files.isDirectory s.staticDir = false) : v.files = u.files := by
  have hassets := h.assets
  rw [assetDeeds, staticDeeds, hnone, if_neg Bool.false_ne_true,
    SiteAction.carryOutAll_singleton] at hassets
  exact SiteAction.log_eq_ok hassets

/-- Copying does not make or take away the static directory. -/
theorem isDirectory_staticDir :
    v.files.isDirectory s.staticDir = u.files.isDirectory s.staticDir := by
  cases hfound : u.files.isDirectory s.staticDir with
  | true => exact h.grows_assets.isDirectory h.grows.unlinked hfound
  | false => rw [h.files_eq hfound, hfound]

/-- **Writing the pages and copying the static files** gives all layers. -/
theorem view_eq : v.files.view = s.outcome w.files (v.files.isDirectory s.staticDir) := by
  have hmoved : u.files.view.moved (w.files.placeOf s.staticDir) (w.files.placeOf s.outputDir)
      = s.copied w.files :=
    TreeView.moved_congr h.view_append
  -- the places of paths are still what they were before the build
  have hapart : ¬ Comparable (u.files.placeOf s.outputDir) (u.files.placeOf s.staticDir) := by
    rw [h.grows.placeOf_eq, h.grows.placeOf_eq]
    exact h.apart
  rw [h.isDirectory_staticDir, SiteAction.view_of_staticDeeds h.grows.unlinked
    (h.done _ List.mem_cons_self) hapart h.assets, h.grows.placeOf_eq, h.grows.placeOf_eq, hmoved,
    view_of_pagesDeeds h.proper h.unlinked h.pages, outcome]
  split
  · rfl
  · rfl

/-- The layers change nothing where they lie already. -/
theorem outcome_eq : s.outcome v.files (v.files.isDirectory s.staticDir) = v.files.view :=
  outcome_of_view_eq h.proper h.apart h.grows_all h.view_eq

end

/-! ### Building again -/

variable {w' u' v' : World} (hfiles : w'.files = v.files)
include h hfiles

/-- **The pages can be written again** where they lie. -/
theorem exists_writes : ∃ u', s.Writes w' u' := by
  have hunlinked : w'.files.Unlinked := hfiles ▸ h.grows_all.unlinked
  obtain ⟨u', hu'⟩ := SiteAction.exists_carryOutAll hunlinked (hfiles ▸ h.done_pages)
  refine ⟨u', h.proper, hunlinked, ?_, hu'⟩
  rw [hfiles, h.grows_all.placeOf_eq, h.grows_all.placeOf_eq]
  exact h.apart

/-- **There is the same to be copied again**, in whatever order. -/
theorem assetDeeds_perm (hwrites : s.Writes w' u') (order' : VisitOrder) :
    u'.files.isDirectory s.staticDir = v.files.isDirectory s.staticDir ∧
      (s.assetDeeds order' u'.files).Perm (s.assetDeeds order u.files) ∧
      staticCount u'.files s.staticDir = staticCount u.files s.staticDir := by
  have hgrows : v.files.Grows u'.files := hfiles ▸ hwrites.grows
  have hboth := h.grows_assets.trans hgrows
  rw [h.isDirectory_staticDir]
  cases hfound : u.files.isDirectory s.staticDir with
  | true =>
    refine ⟨hboth.isDirectory h.grows.unlinked hfound, SiteAction.staticDeeds_perm
      h.grows.unlinked hboth hfound (fun names => ?_) order order'⟩
    have hplace : w'.files.placeOf s.staticDir = w.files.placeOf s.staticDir := by
      rw [hfiles, h.grows_all.placeOf_eq]
    have hview := hwrites.view_append names
    rw [hplace, hfiles, made_append_of_view_eq h.proper h.apart h.grows_all h.view_eq,
      ← h.view_append, ← h.grows.placeOf_eq] at hview
    exact hview
  | false =>
    -- nothing is copied, so the pages have been written to where they lay
    have houtcome := h.outcome_eq
    rw [h.isDirectory_staticDir, hfound] at houtcome
    have hkept : u'.files = v.files := by
      refine hgrows.unlinked.eq_of_view_eq h.grows_all.unlinked ?_ hgrows.workingDirectory
      rw [view_of_pagesDeeds hwrites.proper hwrites.unlinked hwrites.pages, hfiles, ← houtcome]
      rfl
    rw [hkept, h.files_eq hfound, assetDeeds, assetDeeds, staticDeeds, staticDeeds, hfound]
    exact ⟨rfl, .refl _, rfl⟩

/-- **A site that was built can be built again**, in whatever order, which changes nothing. -/
theorem exists_builds (order' : VisitOrder) : ∃ u' v', s.Builds order' w' u' v' ∧
    staticCount u'.files s.staticDir = staticCount u.files s.staticDir ∧ v'.files = v.files := by
  obtain ⟨u', hwrites⟩ := h.exists_writes hfiles
  obtain ⟨hfound, hdeeds, hcount⟩ := h.assetDeeds_perm hfiles hwrites order'
  have hgrows : v.files.Grows u'.files := hfiles ▸ hwrites.grows
  -- what is to be copied has been copied before, so all of it can be copied once more
  obtain ⟨-, hdone⟩ := SiteAction.grows_of_carryOutAll h.grows.unlinked h.assets
  obtain ⟨v', hv'⟩ := SiteAction.exists_carryOutAll hgrows.unlinked fun d hd =>
    (hdone d (hdeeds.mem_iff.1 hd)).of_grows h.grows_all.unlinked hgrows
  have hagain : s.Builds order' w' u' v' := ⟨hwrites, hv'⟩
  refine ⟨u', v', hagain, hcount, ?_⟩
  have hall : v.files.Grows v'.files := hfiles ▸ hagain.grows_all
  refine hall.unlinked.eq_of_view_eq h.grows_all.unlinked ?_ hall.workingDirectory
  rw [hagain.view_eq, hagain.isDirectory_staticDir, hfound, hfiles, h.outcome_eq]

end Builds

/-! ### Builds -/

section Done

variable {fs : FileSystem} (hdone : ∀ d ∈ s.pagesDeeds, d.Done fs)
include hdone

/-- Where the pages have been written, directories are on the way to them. -/
theorem view_of_mem_way_of_done (hfs : fs.Unlinked) {place : Place} (h : place ∈ s.way fs) :
    fs.view place = some .directory := by
  have hmade {path : FilePath} (hpath : Deed.makeDirectories path ∈ s.pagesDeeds)
      (hplace : place ∈ fs.way path) : fs.view place = some .directory := by
    rcases hdone _ hpath with rfl | hdirectory
    · cases hplace
    · exact FileSystem.view_of_mem_way hfs.linkFree hdirectory hplace
  -- a place on the way to the output, or on the way to the parent of a page
  rcases List.mem_append.1 h with h | h
  · exact hmade List.mem_cons_self h
  · obtain ⟨page, hpage, h⟩ := List.mem_flatMap.1 h
    obtain ⟨parent, hparent, h⟩ := List.mem_flatMap.1 h
    refine hmade (List.mem_cons_of_mem _ (List.mem_flatMap.2 ⟨page, hpage, ?_⟩)) h
    exact List.mem_append_left _ (List.mem_map_of_mem hparent)

/-- Where the pages have been written, their paths lead to files. -/
theorem isFile_pagePath_of_done {page : RenderedPage} (hpage : page ∈ s.renderedPages) :
    fs.isFile (s.pagePath page.name) = true := by
  refine hdone (.write (s.pagePath page.name) page.rendered.output.toBytes) ?_
  refine List.mem_cons_of_mem _ (List.mem_flatMap.2 ⟨page, hpage, ?_⟩)
  exact List.mem_append_right _ List.mem_cons_self

end Done

/-- A world with nothing but a site that was built before it got its static files. -/
def builtBefore : World :=
  ⟨⟨.directory [("site".toList, .directory [
    ("dist".toList, .directory [("greeting.html".toList, .file "Hi!".toUTF8),
      ("kept.txt".toList, .file "1".toUTF8)]),
    ("pages".toList, .directory [("greeting.txt".toList, .file "Hello!".toUTF8)]),
    ("static".toList, .directory [
      ("css".toList, .directory [("style.css".toList, .file "2".toUTF8)]),
      ("empty".toList, .directory [])])])], []⟩, []⟩

end Site

end Stencil
