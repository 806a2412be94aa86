import Stencil.Proofs.Engine.Operations
import Stencil.Proofs.File.WellFormed
import Stencil.Proofs.Site.Deeds

/-!
# What loading a site reads

Loading a site changes no files. So the partials and the pages come from the files as they were, and
what a page is called comes from the names by which a walk through the directory of pages came to
its file.

* `SiteAction.HeldByLoading.load` — what holds of reading a file, of a message for the log and of an
  error holds of loading a site; one such property is to change no files (`SiteAction.ReadsOnly`);
* `Site.loads_of_load` — what a site that was loaded has got from where;
* `Registry.exists_of_mem_names_insertFiles` — templates read from files are named after them;
* `Site.exists_names_of_mem_names` — so every page is named after a file that a walk came to by
  proper names.
-/

namespace Stencil

namespace SiteAction

/-! ### Properties of loading -/

/-- Properties of actions that **loading has if its steps have them**: looking at files, adding to
the log, and stopping, but not because of a configuration. -/
structure HeldByLoading (P : {α : Type} → SiteAction α → Prop) : Prop where
  bind {α β : Type} {x : SiteAction α} {f : α → SiteAction β} (hx : P x) (hf : ∀ a, P (f a)) :
    P (x >>= f)
  pure {α : Type} (a : α) : P (pure a : SiteAction α)
  throw {α : Type} {e : SiteError} (he : ∀ fault, e ≠ .config fault) : P (throw e : SiteAction α)
  log (level : LogLevel) (message : String) : P (log level message)
  files : P files

namespace HeldByLoading

variable {P : {α : Type} → SiteAction α → Prop} (h : HeldByLoading P)
include h

theorem accessing {α : Type} (path : FilePath) (result : Except IoFault α) :
    P (accessing path result) := by
  cases result with
  | ok a => exact h.pure a
  | error fault => exact h.throw nofun

theorem readText (path : FilePath) : P (readText path) :=
  h.bind h.files fun _ => h.accessing path _

theorem readData (path : FilePath) : P (readData path) := by
  refine h.bind (h.log _ _) fun _ => h.bind (h.readText path) fun text => ?_
  cases Datum.ofJson text with
  | ok datum => exact h.pure datum
  | error fault => exact h.throw nofun

theorem readAllData (directory : FilePath) (context : Context) (files : List (Text × Text)) :
    P (readAllData directory context files) := by
  induction files generalizing context with
  | nil => exact h.pure context
  | cons file files ih => exact h.bind (h.readData _) fun datum => ih _

/-- Loading data. -/
theorem loadData (directory : FilePath) : P (loadData directory) := by
  refine h.bind h.files fun fs => ?_
  split
  · exact h.readAllData directory ∅ _
  · exact h.bind (h.log _ _) fun _ => h.pure _

theorem engineOf (result : Engine × Except EngineError Unit) : P (Site.engineOf result) := by
  obtain ⟨e, r⟩ := result
  cases r with
  | ok _ => exact h.pure e
  | error err => exact h.throw nofun

/-- **Loading a site** that has an accepted configuration. -/
theorem load {c : SiteConfig} (hvalid : c.validate = .ok ()) (root : FilePath) :
    P (Site.load root c) := by
  unfold Site.load
  rw [hvalid]
  change P (SiteAction.loadData (root.join c.dataDir) >>= _)
  refine h.bind (h.loadData _) fun globals => h.bind h.files fun fs =>
    h.bind (h.engineOf _) fun e => h.bind (h.engineOf _) fun e' => h.bind (h.log _ _) fun _ => ?_
  split
  · exact h.bind (h.log _ _) fun _ => h.pure _
  · exact h.pure _

end HeldByLoading

/-- Whether an action **changes no files**, however it ends. -/
def ReadsOnly {α : Type} (x : SiteAction α) : Prop :=
  ∀ w, (x.perform w).2.files = w.files

theorem ReadsOnly.bind {α β : Type} {x : SiteAction α} {f : α → SiteAction β} (hx : x.ReadsOnly)
    (hf : ∀ a, (f a).ReadsOnly) : (x >>= f).ReadsOnly := by
  intro w
  have hxw := hx w
  rw [perform_bind]
  generalize x.perform w = done at hxw ⊢
  obtain ⟨r, w'⟩ := done
  cases r with
  | ok a => exact (hf a w').trans hxw
  | error e => exact hxw

theorem heldByLoading_readsOnly : HeldByLoading ReadsOnly where
  bind := ReadsOnly.bind
  pure _ _ := rfl
  throw _ _ := rfl
  log _ _ _ := rfl
  files _ := rfl

/-- Loading data changes no files. -/
theorem readsOnly_loadData (directory : FilePath) : ReadsOnly (loadData directory) :=
  heldByLoading_readsOnly.loadData directory

/-- What an action ends in, if something is known about it. -/
theorem exists_perform_eq_ok {α β : Type} {x : SiteAction α} {w : World} {f : α → β} {b : β}
    (h : (x.perform w).1.toOption.map f = some b) :
    ∃ a w', x.perform w = (.ok a, w') ∧ f a = b := by
  rcases hx : x.perform w with ⟨r, w'⟩
  rw [hx] at h
  cases r with
  | ok a => exact ⟨a, w', rfl, Option.some.inj h⟩
  | error e => cases h

/-- An action that ends well has gone on from one that ended well. -/
theorem perform_bind_eq_ok {α β : Type} {x : SiteAction α} {f : α → SiteAction β} {w w' : World}
    {b : β} (h : (x >>= f).perform w = (.ok b, w')) :
    ∃ a v, x.perform w = (.ok a, v) ∧ (f a).perform v = (.ok b, w') := by
  rw [perform_bind] at h
  generalize x.perform w = done at h
  obtain ⟨r, v⟩ := done
  cases r with
  | ok a => exact ⟨a, v, rfl, h⟩
  | error e => cases h

theorem perform_log (level : LogLevel) (message : String) (w : World) :
    (log level message).perform w = (.ok (), { w with log := w.log ++ [⟨level, message⟩] }) :=
  rfl

/-- An action goes on from one that ended well. -/
theorem perform_bind_of_ok {α β : Type} {x : SiteAction α} {f : α → SiteAction β} {w v : World}
    {a : α} (h : x.perform w = (.ok a, v)) : (x >>= f).perform w = (f a).perform v := by
  rw [perform_bind, h]

end SiteAction

namespace Site

/-! ### Loading -/

theorem engineOf_eq_ok {result : Engine × Except EngineError Unit} {w w' : World} {e : Engine}
    (h : (engineOf result).perform w = (.ok e, w')) : result = (e, .ok ()) ∧ w' = w := by
  obtain ⟨e', r⟩ := result
  cases r with
  | ok _ =>
    obtain ⟨he, rfl⟩ := Prod.mk.inj h
    obtain rfl := Except.ok.inj he
    exact ⟨rfl, rfl⟩
  | error err =>
    obtain ⟨h, -⟩ := Prod.mk.inj h
    cases h

/-- **What a loaded site is**: its configuration is usable, its global names are the data of the
site, and its partials and pages are all files that the globs of their directories found, as they
were. -/
theorem loads_of_load {root : FilePath} {c : SiteConfig} {w w' : World} {s : Site}
    (h : (load root c).perform w = (.ok s, w')) :
    (c.validate = .ok () ∧ s.root = root ∧ s.config = c) ∧
      (∃ v, (SiteAction.loadData (root.join c.dataDir)).perform w = (.ok s.engine.globals, v)) ∧
      Engine.Loads w.files (globBelow (root.join c.partialsDir)) s.engine.partials ∧
      Engine.Loads w.files (globBelow (root.join c.pagesDir)) s.engine.templates := by
  unfold load at h
  cases hvalid : c.validate with
  | error fault =>
    rw [hvalid] at h
    obtain ⟨h, -⟩ := Prod.mk.inj h
    cases h
  | ok _ =>
    rw [hvalid] at h
    change (SiteAction.perform (SiteAction.loadData (root.join c.dataDir) >>= _) w) = _ at h
    obtain ⟨globals, w₁, hdata, h⟩ := SiteAction.perform_bind_eq_ok h
    obtain ⟨fs, w₂, hfs, h⟩ := SiteAction.perform_bind_eq_ok h
    obtain ⟨e₁, w₃, hpartials, h⟩ := SiteAction.perform_bind_eq_ok h
    obtain ⟨e₂, w₄, htemplates, h⟩ := SiteAction.perform_bind_eq_ok h
    obtain ⟨-, w₅, -, h⟩ := SiteAction.perform_bind_eq_ok h
    -- the data was read before the pages, and left the files alone
    have hfiles : fs = w.files := by
      have hread := SiteAction.readsOnly_loadData (root.join c.dataDir) w
      rw [hdata] at hread
      exact (Except.ok.inj (Prod.mk.inj hfs).1).symm.trans hread
    -- whether or not it is warned of a site without pages, the site is the same
    have hsite : s = ⟨root, c, e₂⟩ := by
      split at h
      · obtain ⟨-, w₆, -, h⟩ := SiteAction.perform_bind_eq_ok h
        exact (Except.ok.inj (Prod.mk.inj h).1).symm
      · exact (Except.ok.inj (Prod.mk.inj h).1).symm
    subst hfiles hsite
    have hpartials := (engineOf_eq_ok hpartials).1
    have htemplates := (engineOf_eq_ok htemplates).1
    rw [Engine.loadPartials_eq] at hpartials
    rw [Engine.loadTemplates_eq] at htemplates
    -- what is loaded later leaves the global names and the partials as they are
    obtain ⟨r, hr, rfl⟩ := Engine.loadInto_eq_ok _ hpartials
    obtain ⟨r', hr', rfl⟩ := Engine.loadInto_eq_ok _ htemplates
    exact ⟨⟨rfl, rfl, rfl⟩, ⟨w₁, hdata⟩, hr, hr'⟩

/-- The pages of a loaded site are those in the files that some glob found. -/
theorem load_eq_ok {root : FilePath} {c : SiteConfig} {w w' : World} {s : Site}
    (h : (load root c).perform w = (.ok s, w')) :
    c.validate = .ok () ∧ s.root = root ∧ s.config = c ∧
      ∃ g : Glob, s.engine.templates = (Registry.insertFiles w.files ∅ (g.files w.files)).1 := by
  obtain ⟨⟨hvalid, hroot, hconfig⟩, -, -, files, hfiles, hinsert⟩ := loads_of_load h
  refine ⟨hvalid, hroot, hconfig, ?_⟩
  unfold Engine.globFiles at hfiles
  split at hfiles
  · next g hg =>
    obtain rfl := Except.ok.inj hfiles
    exact ⟨g, (congrArg Prod.fst hinsert).symm⟩
  · cases hfiles

end Site

/-! ### Names of templates -/

namespace Registry

theorem mem_names_insert {r : Registry} {t : Template} {name : Text}
    (h : name ∈ (r.insert t).names) : name = t.name ∨ name ∈ r.names := by
  obtain ⟨e, he, rfl⟩ := List.mem_map.1 h
  rcases NameMap.mem_insertEntry he with rfl | he
  · exact .inl rfl
  · exact .inr (List.mem_map_of_mem he)

/-- Templates read from files are named after them, whether or not all could be read. -/
theorem exists_of_mem_names_insertFiles {fs : FileSystem} {r : Registry} {files : List FoundFile}
    {name : Text} (h : name ∈ (r.insertFiles fs files).1.names) :
    name ∈ r.names ∨ ∃ file ∈ files, name = FilePath.templateName file.relative := by
  induction files generalizing r with
  | nil => exact .inl h
  | cons file files ih =>
    rw [insertFiles] at h
    split at h
    · next t ht =>
      -- a name of the registry was there, or is that of this file, or of a later one
      rcases ih h with h | ⟨other, hother, hname⟩
      · rcases mem_names_insert h with rfl | h
        · exact .inr ⟨file, List.mem_cons_self, (Template.ofFile_eq_ok ht).1⟩
        · exact .inl h
      · exact .inr ⟨other, List.mem_cons_of_mem _ hother, hname⟩
    · exact .inl h

end Registry

namespace Glob

/-- The files that a glob finds are those that a walk comes to by proper names. -/
theorem exists_names_of_mem_files {g : Glob} {fs : FileSystem} (hfs : fs.root.WellFormed)
    {file : FoundFile} (h : file ∈ g.files fs) :
    ∃ names : List Text, (∀ name ∈ names, Node.IsName name) ∧
      file.relative = relativePath names := by
  unfold files at h
  split at h
  · cases h
  · obtain ⟨names, hnames, rfl⟩ := List.mem_map.1 (List.mem_filter.1 h).1
    refine ⟨names, ?_, rfl⟩
    unfold filesBelow at hnames
    split at hnames
    · -- the directory of the glob is itself a file, and no name leads to it
      rw [List.mem_singleton.1 hnames]
      exact fun _ hname => absurd hname List.not_mem_nil
    · obtain ⟨v, hv, hfile⟩ := List.mem_filterMap.1 hnames
      have hproper := (FileSystem.isProper_of_mem_walk hfs hv).2
      cases v with
      | directory _ => cases hfile
      | fault _ _ => cases hfile
      | file _ =>
        obtain rfl := Option.some.inj hfile
        exact hproper
      | barred _ _ =>
        obtain rfl := Option.some.inj hfile
        exact hproper

end Glob

/-- **Every page is named after a file** that a walk came to by proper names. -/
theorem Site.exists_names_of_mem_names {root : FilePath} {c : SiteConfig} {w w' : World} {s : Site}
    (hfiles : w.files.root.WellFormed) (h : (load root c).perform w = (.ok s, w')) {name : Text}
    (hname : name ∈ s.engine.templates.names) :
    ∃ names : List Text, (∀ n ∈ names, Node.IsName n) ∧
      name = FilePath.templateName (Glob.relativePath names) := by
  obtain ⟨-, -, -, g, htemplates⟩ := load_eq_ok h
  rw [htemplates] at hname
  rcases Registry.exists_of_mem_names_insertFiles hname with hname | ⟨file, hfile, hname⟩
  · cases hname
  · obtain ⟨names, hnames, hrelative⟩ := Glob.exists_names_of_mem_files hfiles hfile
    exact ⟨names, hnames, hrelative ▸ hname⟩

end Stencil
