import Stencil.Proofs.File.WellFormed
import Stencil.Site.Basic

/-!
# What a build does

A build goes through pages and static files, and decides on the way what to do next. What it does is
a list of deeds, done one after the other until one fails: directories are made, files are written
and copied, and the log goes on.

* `SiteAction.perform_bind` — an action goes on from where the action before it ended;
* `Site.writePages_eq`, `SiteAction.copyStaticIn_eq` — writing pages and copying static files are
  such lists;
* `Site.files_build` — so a build leaves the files as the deeds do that it plans (`Site.plan`);
* `Deed.wellFormed_carryOut`, `SiteAction.wellFormed_carryOutAll` — one deed, and so any number of
  them, keeps the tree of files well-formed.
-/

namespace Stencil

/-! ### Deeds -/

/-- One **deed** of a build. -/
inductive Deed where
  | makeDirectories (path : FilePath)
  | write (path : FilePath) (content : ByteArray)
  | copy (source target : FilePath)
  | log (level : LogLevel) (message : String)
  /-- Stops. -/
  | fail (error : SiteError)

namespace Deed

/-- Does it. -/
def carryOut : Deed → SiteAction Unit
  | makeDirectories path => SiteAction.makeDirectories path
  | write path content => SiteAction.change path fun fs => fs.write path content
  | copy source target => SiteAction.change source fun fs => fs.copy source target
  | log level message => SiteAction.log level message
  | fail error => throw error

/-- The path at which something is made or overwritten, if anything is. -/
def target? : Deed → Option FilePath
  | makeDirectories path => some path
  | write path _ => some path
  | copy _ target => some target
  | log .. => none
  | fail _ => none

end Deed

namespace SiteAction

/-- Does one thing after the other, up to the first failure. -/
def carryOutAll : List Deed → SiteAction Unit
  | [] => pure ()
  | d :: rest => do
    d.carryOut
    carryOutAll rest

theorem carryOutAll_append (ds es : List Deed) :
    carryOutAll (ds ++ es) = (do carryOutAll ds; carryOutAll es) := by
  induction ds with
  | nil => rw [List.nil_append, carryOutAll, pure_bind]
  | cons d ds ih => rw [List.cons_append, carryOutAll, carryOutAll, ih, bind_assoc]

theorem carryOutAll_singleton (d : Deed) : carryOutAll [d] = d.carryOut := by
  rw [carryOutAll, carryOutAll]
  exact bind_pure_unit

/-! ### Worlds -/

/-- An action goes on from where the action before it ended, if that did not fail. -/
theorem perform_bind {α β : Type} (x : SiteAction α) (f : α → SiteAction β) (w : World) :
    (x >>= f).perform w =
      match x.perform w with
      | (.ok a, w') => (f a).perform w'
      | (.error e, w') => (.error e, w') := by
  unfold perform
  rw [ExceptT.run_bind, StateT.run_bind]
  change StateT.run _ (StateT.run (ExceptT.run x) w).2 = _
  rcases StateT.run (ExceptT.run x) w with ⟨r, w'⟩
  cases r with
  | ok a => rfl
  | error e => rfl

end SiteAction

/-! ### Pages -/

/-- Making the directory that a file is to lie in. -/
def parentDeeds (path : FilePath) : List Deed :=
  path.parent?.toList.map .makeDirectories

namespace SiteAction

theorem carryOutAll_parentDeeds_append (path : FilePath) (ds : List Deed) :
    carryOutAll (parentDeeds path ++ ds)
      = (do if let some parent := path.parent? then makeDirectories parent
            carryOutAll ds) := by
  rw [parentDeeds]
  cases path.parent? with
  | none =>
    rw [Option.toList_none, List.map_nil, List.nil_append]
  | some parent => rfl

end SiteAction

namespace Site

/-- What writing a page comes to. -/
def pageDeeds (s : Site) (page : RenderedPage) : List Deed :=
  let path := s.pagePath page.name
  parentDeeds path ++
    [.write path page.rendered.output.toBytes, .log .info s!"Wrote {String.ofList path}"]

theorem writePage_eq (s : Site) (page : RenderedPage) :
    s.writePage page = SiteAction.carryOutAll (s.pageDeeds page) := by
  rw [pageDeeds, SiteAction.carryOutAll_parentDeeds_append, SiteAction.carryOutAll,
    SiteAction.carryOutAll_singleton]
  rfl

theorem writePages_eq (s : Site) (pages : List RenderedPage) :
    s.writePages pages = SiteAction.carryOutAll (pages.flatMap s.pageDeeds) := by
  induction pages with
  | nil => rfl
  | cons page pages ih =>
    rw [List.flatMap_cons, SiteAction.carryOutAll_append, writePages, writePage_eq, ih]

end Site

/-! ### Static files -/

/-- What copying comes to when a walk met these. -/
def visitDeeds (source target : FilePath) : List Visit → List Deed
  | [] => []
  | .fault names fault :: _ => [.fail (.access (source.joinNames names) (.walk fault))]
  | .barred names fault :: _ =>
    [.makeDirectories (target.join (Text.unpieces '/' names)),
      .fail (.access (source.joinNames names) (.walk (.io fault)))]
  | .directory names :: rest =>
    .makeDirectories (target.join (Text.unpieces '/' names)) :: visitDeeds source target rest
  | .file names :: rest =>
    let relative := Text.unpieces '/' names
    let copied := target.join relative
    parentDeeds copied ++
      .copy (source.joinNames names) copied ::
        .log .debug s!"Copied {String.ofList relative}" :: visitDeeds source target rest

/-- How many files a walk met. -/
def fileCount : List Visit → Nat
  | [] => 0
  | .file _ :: rest => fileCount rest + 1
  | _ :: rest => fileCount rest

theorem fileCount_cons (v : Visit) (rest : List Visit) :
    fileCount (v :: rest) = fileCount [v] + fileCount rest := by
  cases v with
  | file names => exact Nat.add_comm (fileCount rest) 1
  | _ => exact (Nat.zero_add _).symm

/-- The count does not depend on the order in which a walk met them. -/
theorem fileCount_perm {visits visits' : List Visit} (h : visits.Perm visits') :
    fileCount visits = fileCount visits' := by
  induction h with
  | nil => rfl
  | @cons v visits visits' _ ih => rw [fileCount_cons v visits, ih, ← fileCount_cons v visits']
  | swap v v' rest =>
    rw [fileCount_cons v', fileCount_cons v rest, fileCount_cons v (v' :: rest),
      fileCount_cons v' rest, Nat.add_left_comm]
  | trans _ _ ih ih' => exact ih.trans ih'

/-- What copying a directory comes to when directories list their entries in that order. -/
def staticDeeds (order : VisitOrder) (fs : FileSystem) (source target : FilePath) : List Deed :=
  if fs.isDirectory source then visitDeeds source target (order.arrange (fs.walk source))
  else [.log .debug s!"No static directory at {String.ofList source}"]

/-- How many files copying a directory counts. -/
def staticCount (fs : FileSystem) (source : FilePath) : Nat :=
  if fs.isDirectory source then fileCount (fs.walk source) else 0

namespace SiteAction

theorem copyVisits_eq (source target : FilePath) (visits : List Visit) :
    copyVisits source target visits
      = (do carryOutAll (visitDeeds source target visits); return fileCount visits) := by
  induction visits with
  | nil => rfl
  | cons v visits ih =>
    cases v with
    | fault names fault => rfl
    | barred names fault =>
      rw [copyVisits, visitDeeds, carryOutAll, carryOutAll_singleton, bind_assoc]
      rfl
    | directory names =>
      rw [copyVisits, visitDeeds, carryOutAll, bind_assoc, ih]
      rfl
    | file names =>
      -- a file in the directory itself has a parent that is made all the same, if it has one
      rw [copyVisits, visitDeeds, carryOutAll_parentDeeds_append, carryOutAll, carryOutAll, ih]
      cases (target.join (Text.unpieces '/' names)).parent? with
      | none =>
        simp only [bind_assoc, pure_bind]
        rfl
      | some parent =>
        simp only [bind_assoc, pure_bind]
        rfl

theorem copyStaticIn_eq (order : VisitOrder) (source target : FilePath) :
    copyStaticIn order source target
      = (do
          let fs ← files
          carryOutAll (staticDeeds order fs source target)
          return staticCount fs source) := by
  unfold copyStaticIn
  congr 1
  funext fs
  rw [staticDeeds, staticCount]
  split
  · rw [copyVisits_eq, fileCount_perm (order.perm _)]
  · rw [carryOutAll_singleton]
    rfl

end SiteAction

/-! ### Builds -/

namespace Site

/-- What writing all pages comes to. -/
def pagesDeeds (s : Site) : List Deed :=
  .makeDirectories s.outputDir :: s.renderedPages.flatMap s.pageDeeds

/-- **What a build comes to** that begins with the files of a world: the pages are written, and then
the static files are copied that are there. -/
def deeds (s : Site) (w : World) : List Deed :=
  s.pagesDeeds ++
    staticDeeds .byName ((SiteAction.carryOutAll s.pagesDeeds).perform w).2.files
      (s.root.join s.config.staticDir) s.outputDir

/-- A world in which the pages have been rendered: only the log has gone on. -/
def afterRendering (s : Site) (w : World) : World :=
  { w with log := w.log ++ s.renderedPages.flatMap renderLog }

/-- Whether there are warnings where they are denied. -/
def isDenied (s : Site) : Bool :=
  s.config.denyWarnings && 0 < (diagnosticsOf s.renderedPages).length

/-- What was rendered is accepted, unless there are warnings and they are denied. -/
theorem perform_acceptPages (s : Site) (w : World) :
    (s.acceptPages s.renderedPages).perform w
      = (if s.isDenied then
          .error (.warningsDenied (diagnosticsOf s.renderedPages).length)
        else .ok s.renderedPages, s.afterRendering w) := by
  unfold acceptPages
  rw [SiteAction.perform_bind]
  change SiteAction.perform (if s.isDenied then _ else _) (s.afterRendering w) = _
  split
  · rfl
  · rfl

/-- A build that rendering did not stop, in deeds. -/
theorem buildIn_eq (s : Site) (order : VisitOrder) :
    s.buildIn order = (do
      let pages ← s.acceptPages s.renderedPages
      SiteAction.carryOutAll (.makeDirectories s.outputDir :: pages.flatMap s.pageDeeds)
      let fs ← SiteAction.files
      let source := s.root.join s.config.staticDir
      SiteAction.carryOutAll (staticDeeds order fs source s.outputDir)
      SiteAction.log .info <|
        s!"Built {pages.length} page(s) and copied {staticCount fs source} static file(s) " ++
          s!"into {String.ofList s.outputDir}"
      return ⟨pages.map (·.name), staticCount fs source, diagnosticsOf pages⟩) := by
  unfold buildIn buildPages
  congr 1
  funext pages
  -- writing pages and copying files are both carried out as lists of deeds
  rw [SiteAction.carryOutAll, bind_assoc, writePages_eq, SiteAction.copyStaticIn_eq]
  simp only [bind_assoc, pure_bind]
  rfl

/-- **What a build plans** that begins with a world: nothing if warnings stop it, and else all its
deeds. -/
def plan (s : Site) (w : World) : List Deed :=
  if s.isDenied then [] else s.deeds (s.afterRendering w)

/-- **A build leaves the files** as what it plans does, up to the first failure. -/
theorem files_build (s : Site) (w : World) :
    (s.build.perform w).2.files
      = ((SiteAction.carryOutAll (s.plan w)).perform (s.afterRendering w)).2.files := by
  rw [build, buildIn_eq, SiteAction.perform_bind, perform_acceptPages, plan]
  cases s.isDenied with
  | true => rfl
  | false =>
    generalize s.afterRendering w = v
    change (SiteAction.perform (SiteAction.carryOutAll s.pagesDeeds >>= _) v).2.files
      = ((SiteAction.carryOutAll (s.deeds v)).perform v).2.files
    rw [deeds, SiteAction.carryOutAll_append, SiteAction.perform_bind, SiteAction.perform_bind]
    rcases (SiteAction.carryOutAll s.pagesDeeds).perform v with ⟨r, v₁⟩
    cases r with
    | error e => rfl
    | ok _ =>
      -- what is copied is decided by the files that are there once the pages are written
      change (SiteAction.perform
        (SiteAction.carryOutAll (staticDeeds .byName v₁.files _ _) >>= _) v₁).2.files = _
      rw [SiteAction.perform_bind]
      simp only
      rcases (SiteAction.carryOutAll (staticDeeds .byName v₁.files
        (s.root.join s.config.staticDir) s.outputDir)).perform v₁ with ⟨r, v₂⟩
      cases r with
      | error e => rfl
      | ok _ => rfl

end Site

/-! ### Well-formed trees -/

namespace SiteAction

/-- A change that fails changes nothing. -/
theorem perform_change (path : FilePath) (f : FileSystem → Except IoFault FileSystem) (w : World) :
    (change path f).perform w =
      match f w.files with
      | .ok files => (.ok (), { w with files })
      | .error fault => (.error (.access path (.io fault)), w) := by
  change SiteAction.perform (accessing path (f w.files) >>= _) w = _
  rw [perform_bind]
  cases f w.files with
  | ok files => rfl
  | error fault => rfl

theorem perform_makeDirectories (path : FilePath) (w : World) :
    (makeDirectories path).perform w =
      match w.files.makeDirectories path with
      | (files, none) => (.ok (), { w with files })
      | (files, some fault) => (.error (.access path (.io fault)), { w with files }) := by
  have hfiles : files.perform w = (.ok w.files, w) := rfl
  unfold makeDirectories
  rw [perform_bind, hfiles]
  rcases hmade : w.files.makeDirectories path with ⟨made, fault⟩
  simp only [hmade]
  cases fault with
  | none => rfl
  | some fault => rfl

theorem files_makeDirectories (path : FilePath) (w : World) :
    ((makeDirectories path).perform w).2.files = (w.files.makeDirectories path).1 := by
  rw [perform_makeDirectories]
  split
  · next hmade => rw [hmade]
  · next hmade => rw [hmade]

end SiteAction

/-- **One deed** keeps the tree of files well-formed, whether or not it succeeds. -/
theorem Deed.wellFormed_carryOut (d : Deed) {w : World} (h : w.files.root.WellFormed) :
    (d.carryOut.perform w).2.files.root.WellFormed := by
  -- writing and copying either succeed, or leave everything as it is
  have change (path : FilePath) (f : FileSystem → Except IoFault FileSystem)
      (hf : ∀ fs, f w.files = .ok fs → fs.root.WellFormed) :
      ((SiteAction.change path f).perform w).2.files.root.WellFormed := by
    rw [SiteAction.perform_change]
    cases hfs : f w.files with
    | ok fs => exact hf fs hfs
    | error fault => exact h
  cases d with
  | makeDirectories path =>
    rw [carryOut, SiteAction.files_makeDirectories]
    exact FileSystem.wellFormed_makeDirectories h path
  | write path content => exact change path _ fun fs hfs => FileSystem.wellFormed_write h hfs
  | copy source target => exact change source _ fun fs hfs => FileSystem.wellFormed_copy h hfs
  | log level message => exact h
  | fail error => exact h

/-- **Any number of deeds** keep the tree of files well-formed, wherever they stop. -/
theorem SiteAction.wellFormed_carryOutAll (ds : List Deed) {w : World}
    (h : w.files.root.WellFormed) : ((carryOutAll ds).perform w).2.files.root.WellFormed := by
  induction ds generalizing w with
  | nil => exact h
  | cons d ds ih =>
    have hd := d.wellFormed_carryOut h
    rw [carryOutAll, perform_bind]
    generalize d.carryOut.perform w = done at hd ⊢
    obtain ⟨r, w'⟩ := done
    -- behind a deed that fails there are no others
    cases r with
    | ok _ => exact ih hd
    | error e => exact hd

end Stencil
