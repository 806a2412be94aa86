import Stencil.Proofs.File.Confined
import Stencil.Proofs.Site.Overlap
import Stencil.Proofs.Site.Repeated

/-!
# Pages in the output

A page is written to a path in the output directory that is put together from its name and the
extension of pages. Where those are proper names, each page has a place of its own, below that of
the output directory, and writing all pages comes to laying them over what was there, together with
the directories on the way that were missing.

* `Site.hasProperPages_of_load` — pages that were loaded from a tree without links and backslashes
  have proper names;
* `Site.placeOf_pagePath`, `Site.pairwise_placeOf_pagePath` — so each has its own place;
* `Site.view_of_pagesDeeds` — what writing all pages changes.
-/

namespace Stencil

/-! ### Names of pages -/

/-- In a tree without links, the files that a glob finds are files of the tree. -/
theorem Glob.exists_at?_of_mem_files {g : Glob} {fs : FileSystem} (hfs : fs.Unlinked)
    {file : FoundFile} (h : file ∈ g.files fs) :
    ∃ (place : Place) (names : List Text) (content : ByteArray),
      fs.root.at? (place ++ names) = some (.file content) ∧ file.relative = relativePath names := by
  unfold files at h
  split at h
  · cases h
  · next base _ =>
    obtain ⟨names, hnames, rfl⟩ := List.mem_map.1 (List.mem_filter.1 h).1
    cases hfind : fs.find base with
    | error e =>
      -- what cannot be found holds nothing
      have hfile : fs.isFile base = false := by
        rw [FileSystem.isFile, hfind]
      rw [filesBelow, hfile, FileSystem.walk, hfind] at hnames
      cases hnames
    | ok found =>
      obtain ⟨place, n⟩ := found
      have hat := FileSystem.at?_of_find hfind
      rw [filesBelow_eq hfind (Node.linkFree_of_at? hfs.linkFree hat)] at hnames
      obtain ⟨content, hcontent⟩ :=
        (Node.mem_files_iff (FileSystem.wellFormed_of_find hfs.wellFormed hfind)).1 hnames
      refine ⟨place, names, content, ?_, rfl⟩
      rw [Node.at?_append, hat]
      exact hcontent

namespace Site

variable {s : Site}

/-- Whether the paths of all pages, seen from the output directory, **go down by proper names**. -/
def HasProperPages (s : Site) : Prop :=
  ∀ name ∈ s.engine.templates.names,
    ∀ piece ∈ Text.pieces '/' (name ++ '.' :: s.config.pageExtension), Node.IsName piece

/-- **Pages that were loaded** from a tree without links go down by proper names, if no name in the
tree holds a backslash and the extension of pages no slash. -/
theorem hasProperPages_of_load {root : FilePath} {c : SiteConfig} {w w' : World}
    (hw : w.files.Unlinked)
    (hbackslash : ∀ place n, w.files.root.at? place = some n → ∀ name ∈ place, '\\' ∉ name)
    (hslash : '/' ∉ c.pageExtension) (h : (load root c).perform w = (.ok s, w')) :
    s.HasProperPages := by
  obtain ⟨hvalid, -, rfl, g, htemplates⟩ := load_eq_ok h
  obtain ⟨-, hextension, hpoint, -⟩ := SiteConfig.validate_eq_ok_iff_forall.1 hvalid
  intro name hname piece hpiece
  rw [htemplates] at hname
  rcases Registry.exists_of_mem_names_insertFiles hname with hname | ⟨file, hfile, rfl⟩
  · cases hname
  -- the name of a page is made of the names of a file below the pages
  · obtain ⟨place, names, content, hat, hrelative⟩ := Glob.exists_at?_of_mem_files hw hfile
    have hproper := (Node.wellFormed_of_at? hw.wellFormed hat).1
    rw [hrelative] at hpiece
    refine FilePath.isName_of_mem_pieces_templateName (fun n hn => ?_) (fun n hn => ?_) hextension
      hpoint hslash hpiece
    · exact hproper n (List.mem_append_right _ hn)
    · exact hbackslash _ _ hat n (List.mem_append_right _ hn)

/-! ### Places of pages -/

section Places

variable (hproper : s.HasProperPages) {name : Text} (hname : name ∈ s.engine.templates.names)
  (fs : FileSystem)
include hproper hname

/-- **The place of a page** is below that of the output directory. -/
theorem placeOf_pagePath : fs.placeOf (s.pagePath name)
    = fs.placeOf s.outputDir ++ Text.pieces '/' (name ++ '.' :: s.config.pageExtension) := by
  have hpieces := hproper name hname
  have hconfined := FilePath.confined_of_pieces rfl hpieces
  refine FileSystem.placeOf_join hconfined.relative ?_
  rw [FilePath.bareSteps_of_relative hconfined.relative, FilePath.bareStepsOf_of_isName hpieces]

/-- Pages of one place have one name. -/
theorem eq_of_placeOf_pagePath_eq {other : Text} (hother : other ∈ s.engine.templates.names)
    (h : fs.placeOf (s.pagePath name) = fs.placeOf (s.pagePath other)) : name = other := by
  rw [placeOf_pagePath hproper hname, placeOf_pagePath hproper hother] at h
  have hpieces := congrArg (Text.unpieces '/') (List.append_cancel_left h)
  rw [Text.unpieces_pieces, Text.unpieces_pieces] at hpieces
  exact List.append_cancel_right hpieces

/-- A page does not lie in a directory that keeps apart from the output directory. -/
theorem placeOf_pagePath_ne {place : Place} (hapart : ¬ Comparable (fs.placeOf s.outputDir) place)
    (names : List Text) : fs.placeOf (s.pagePath name) ≠ place ++ names := by
  rw [placeOf_pagePath hproper hname]
  intro heq
  have hbelow : fs.placeOf s.outputDir <+: place ++ names := heq ▸ List.prefix_append ..
  exact hapart (List.prefix_or_prefix_of_prefix hbelow (List.prefix_append ..))

end Places

/-- **Each page has a place of its own.** -/
theorem pairwise_placeOf_pagePath (hproper : s.HasProperPages) (fs : FileSystem) :
    s.renderedPages.Pairwise fun page other =>
      fs.placeOf (s.pagePath page.name) ≠ fs.placeOf (s.pagePath other.name) := by
  refine List.pairwise_map.2 (s.engine.templates.templates.ordered.imp_of_mem ?_)
  intro e d he hd hlt heq
  have hsame := eq_of_placeOf_pagePath_eq hproper (List.mem_map_of_mem he) fs
    (List.mem_map_of_mem hd) heq
  exact List.lt_irrefl _ (hsame ▸ hlt)

/-! ### Writing pages -/

/-- What some pages put at a place: the output of the page whose path leads there. -/
def writtenBy (s : Site) (fs : FileSystem) (pages : List RenderedPage) : TreeView :=
  fun place => (pages.find? fun page => fs.placeOf (s.pagePath page.name) = place).map
    fun page => .file page.rendered.output.toBytes

/-- **What the pages of a site put** at each place. -/
def written (s : Site) (fs : FileSystem) : TreeView :=
  s.writtenBy fs s.renderedPages

/-- The places on the way of the directories in which some pages lie. -/
def wayOfPages (s : Site) (fs : FileSystem) (pages : List RenderedPage) : List Place :=
  pages.flatMap fun page => (s.pagePath page.name).parent?.toList.flatMap fs.way

/-- **The places at which directories are needed**: those on the way of the output directory, and of
the directories in which pages lie. -/
def way (s : Site) (fs : FileSystem) : List Place :=
  fs.way s.outputDir ++ s.wayOfPages fs s.renderedPages

/-- **What was there**, with the directories that are needed where nothing was. -/
def made (s : Site) (fs : FileSystem) : TreeView :=
  fs.view.onto (.directories (s.way fs))

theorem writtenBy_cons (fs : FileSystem) (page : RenderedPage) (pages : List RenderedPage)
    (place : Place) : s.writtenBy fs (page :: pages) place
      = if fs.placeOf (s.pagePath page.name) = place then some (.file page.rendered.output.toBytes)
        else s.writtenBy fs pages place := by
  rw [writtenBy, List.find?_cons]
  split
  · next heq => rw [if_pos (of_decide_eq_true heq)]; rfl
  · next hne => rw [if_neg (of_decide_eq_false hne)]; rfl

theorem writtenBy_eq_none {fs : FileSystem} {pages : List RenderedPage} {place : Place}
    (h : ∀ page ∈ pages, fs.placeOf (s.pagePath page.name) ≠ place) :
    s.writtenBy fs pages place = none := by
  rw [writtenBy, Option.map_eq_none_iff, List.find?_eq_none]
  exact fun page hpage heq => h page hpage (of_decide_eq_true heq)

theorem writtenBy_eq_of_mem {fs : FileSystem} {pages : List RenderedPage}
    (hpairwise : pages.Pairwise fun page other =>
      fs.placeOf (s.pagePath page.name) ≠ fs.placeOf (s.pagePath other.name))
    {page : RenderedPage} (h : page ∈ pages) :
    s.writtenBy fs pages (fs.placeOf (s.pagePath page.name))
      = some (.file page.rendered.output.toBytes) := by
  induction pages with
  | nil => cases h
  | cons first pages ih =>
    obtain ⟨hfirst, hpages⟩ := List.pairwise_cons.1 hpairwise
    rw [writtenBy_cons]
    rcases List.mem_cons.1 h with rfl | h
    · exact if_pos rfl
    -- the first page is written elsewhere
    · rw [if_neg (hfirst page h)]
      exact ih hpages h

/-- The output of each page stands at its place. -/
theorem written_eq_of_mem (hproper : s.HasProperPages) (fs : FileSystem) {page : RenderedPage}
    (h : page ∈ s.renderedPages) :
    s.written fs (fs.placeOf (s.pagePath page.name)) = some (.file page.rendered.output.toBytes) :=
  writtenBy_eq_of_mem (pairwise_placeOf_pagePath hproper fs) h

/-- Nothing is written where no page is. -/
theorem written_eq_none (hproper : s.HasProperPages) (fs : FileSystem) {place : Place}
    (hapart : ¬ Comparable (fs.placeOf s.outputDir) place) (names : List Text) :
    s.written fs (place ++ names) = none := by
  refine writtenBy_eq_none fun page hpage => ?_
  obtain ⟨e, he, rfl⟩ := List.mem_map.1 hpage
  exact placeOf_pagePath_ne hproper (List.mem_map_of_mem he) fs hapart names

section Grows

variable {fs fs' : FileSystem} (h : fs.Grows fs')
include h

theorem writtenBy_of_grows (pages : List RenderedPage) :
    s.writtenBy fs' pages = s.writtenBy fs pages := by
  unfold writtenBy
  simp only [h.placeOf_eq]

theorem wayOfPages_of_grows (pages : List RenderedPage) :
    s.wayOfPages fs' pages = s.wayOfPages fs pages := by
  have hway : fs'.way = fs.way := funext h.way_eq
  rw [wayOfPages, wayOfPages, hway]

theorem way_of_grows : s.way fs' = s.way fs := by
  rw [way, way, h.way_eq, wayOfPages_of_grows h]

end Grows

/-- Making the directory that a page lies in, if its path has a parent. -/
theorem view_of_parentDeeds {w w' : World} {path : FilePath} (hw : w.files.Unlinked)
    (h : (SiteAction.carryOutAll (parentDeeds path)).perform w = (.ok (), w')) :
    w'.files.view = w.files.view.onto
      (.directories (path.parent?.toList.flatMap w.files.way)) := by
  unfold parentDeeds at h
  -- a path without a parent needs no directory
  cases hparent : path.parent? with
  | none =>
    rw [hparent] at h
    obtain ⟨-, rfl⟩ := Prod.mk.inj h
    exact (TreeView.onto_none _).symm
  | some parent =>
    rw [hparent, Option.toList_some, List.map_singleton, SiteAction.carryOutAll_singleton] at h
    rw [Option.toList_some, List.flatMap_singleton]
    exact (FileSystem.makeDirectories_spec hw (SiteAction.makeDirectories_eq_ok h)).2.2.1

/-- **Writing one page** puts it at its place. -/
theorem view_of_pageDeeds {w w' : World} {page : RenderedPage} (hw : w.files.Unlinked)
    (h : (SiteAction.carryOutAll (s.pageDeeds page)).perform w = (.ok (), w')) :
    w'.files.view = Function.update
      (w.files.view.onto (.directories ((s.pagePath page.name).parent?.toList.flatMap w.files.way)))
      (w.files.placeOf (s.pagePath page.name)) (some (.file page.rendered.output.toBytes)) := by
  obtain ⟨v, hparent, h⟩ := SiteAction.carryOutAll_append_eq_ok h
  obtain ⟨v', hwrite, h⟩ := SiteAction.carryOutAll_cons_eq_ok h
  rw [SiteAction.carryOutAll_singleton] at h
  obtain ⟨hgrows, -⟩ := SiteAction.grows_of_carryOutAll hw hparent
  obtain ⟨-, hview, -⟩ := FileSystem.write_spec hgrows.unlinked (SiteAction.change_eq_ok hwrite)
  rw [SiteAction.log_eq_ok h, hview, hgrows.placeOf_eq, view_of_parentDeeds hw hparent]

/-- **Writing some pages** lays them over what was there, with the directories they lie in. -/
theorem view_of_flatMap_pageDeeds {w w' : World} {pages : List RenderedPage} (hw : w.files.Unlinked)
    (hpairwise : pages.Pairwise fun page other =>
      w.files.placeOf (s.pagePath page.name) ≠ w.files.placeOf (s.pagePath other.name))
    (h : (SiteAction.carryOutAll (pages.flatMap s.pageDeeds)).perform w = (.ok (), w')) :
    w'.files.view = (s.writtenBy w.files pages).onto
      (w.files.view.onto (.directories (s.wayOfPages w.files pages))) := by
  induction pages generalizing w with
  | nil =>
    obtain ⟨-, rfl⟩ := Prod.mk.inj h
    exact (TreeView.onto_none _).symm
  | cons page pages ih =>
    obtain ⟨hfirst, hpages⟩ := List.pairwise_cons.1 hpairwise
    rw [List.flatMap_cons] at h
    obtain ⟨v, hpage, h⟩ := SiteAction.carryOutAll_append_eq_ok h
    obtain ⟨hgrows, -⟩ := SiteAction.grows_of_carryOutAll hw hpage
    simp only [← hgrows.placeOf_eq] at hpages
    have hways : s.wayOfPages w.files (page :: pages)
        = (s.pagePath page.name).parent?.toList.flatMap w.files.way ++ s.wayOfPages w.files pages :=
      List.flatMap_cons
    rw [ih hgrows.unlinked hpages h, writtenBy_of_grows hgrows, wayOfPages_of_grows hgrows,
      view_of_pageDeeds hw hpage, hways, TreeView.directories_append,
      ← TreeView.onto_assoc w.files.view]
    funext place
    rw [TreeView.onto, TreeView.onto, TreeView.onto, writtenBy_cons, Function.update_apply]
    by_cases heq : w.files.placeOf (s.pagePath page.name) = place
    · -- no later page is written there
      subst heq
      rw [writtenBy_eq_none fun other hother => (hfirst other hother).symm, if_pos rfl, if_pos rfl]
      rfl
    · rw [if_neg heq, if_neg (Ne.symm heq)]
      rfl

/-- **Writing all pages** lays them over what was there, with the directories that are needed. -/
theorem view_of_pagesDeeds (hproper : s.HasProperPages) {w w' : World} (hw : w.files.Unlinked)
    (h : (SiteAction.carryOutAll s.pagesDeeds).perform w = (.ok (), w')) :
    w'.files.view = (s.written w.files).onto (s.made w.files) := by
  obtain ⟨v, hmake, h⟩ := SiteAction.carryOutAll_cons_eq_ok h
  obtain ⟨hgrows, -, hview, -⟩ :=
    FileSystem.makeDirectories_spec hw (SiteAction.makeDirectories_eq_ok hmake)
  rw [view_of_flatMap_pageDeeds hgrows.unlinked (pairwise_placeOf_pagePath hproper _) h,
    writtenBy_of_grows hgrows, wayOfPages_of_grows hgrows, hview, TreeView.onto_assoc,
    ← TreeView.directories_append]
  rfl

end Site

end Stencil
