import Mathlib
import Stencil.Engine.Basic

/-!
# What operations make of engines

An engine is filled operation by operation, and some of the operations read files: single ones, all
that a glob finds, or everything again that globs found before. This module says what an engine is
after an operation that reads files, whether or not it ended well:

* `Registry.insertFiles_takeWhile`, `Registry.insertFiles_eq_ok_iff` — files are added up to the
  first one that cannot be read, and all of them only if there is no such file;
* `Registry.get?_insertFiles` — of the files of one name, the last one is kept;
* `Engine.loadTemplates_of_isGlob`, `Engine.loadPartials_of_isGlob` — so loading from a glob keeps
  the glob, and as much as could be read;
* `Engine.Reachable.holdsGlobs` — the globs that an engine keeps are globs, whatever operations led
  to it.

Mathlib is imported whole here, and only here, for the modules above: they evaluate runs over fixed
trees of files, and take the equations of lists, bytes and states from it.
-/

namespace Stencil

/-! ### Files, up to the first one that cannot be read -/

/-- Whether the template in a file that was found can be read. -/
def FoundFile.isReadable (fs : FileSystem) (file : FoundFile) : Bool :=
  (Template.ofFile fs (FilePath.templateName file.relative) file.path).isOk

/-- What is read from a file is its text. -/
theorem Template.ofFile_eq_ok {fs : FileSystem} {name : Text} {path : FilePath} {t : Template}
    (h : Template.ofFile fs name path = .ok t) :
    t.name = name ∧ t.path = some path ∧ ∃ place content,
      fs.find path = .ok (place, .file content) ∧ Text.ofBytes? content = some t.source := by
  unfold Template.ofFile at h
  split at h
  · cases h
  · next found hfound =>
    split at h
    · cases h
    · next source hsource =>
      obtain rfl := Except.ok.inj h
      obtain ⟨place, n⟩ := found
      -- only a file can be read
      cases n with
      | file content =>
        have hread : fs.read path = .ok content := by rw [FileSystem.read, hfound]
        rw [FileSystem.readText, hread] at hsource
        cases hcontent : Text.ofBytes? content with
        | none =>
          simp only [hcontent] at hsource
          cases hsource
        | some text =>
          simp only [hcontent] at hsource
          obtain rfl := Except.ok.inj hsource
          exact ⟨rfl, rfl, place, content, hfound, hcontent⟩
      | directory entries =>
        rw [FileSystem.readText, FileSystem.read, hfound] at hsource
        cases hsource
      | link target =>
        rw [FileSystem.readText, FileSystem.read, hfound] at hsource
        cases hsource

namespace Registry

variable {fs : FileSystem}

theorem insertFiles_cons_of_ok {file : FoundFile} {t : Template}
    (h : Template.ofFile fs (FilePath.templateName file.relative) file.path = .ok t)
    (r : Registry) (files : List FoundFile) :
    r.insertFiles fs (file :: files) = (r.insert t).insertFiles fs files := by
  rw [insertFiles, h]

theorem insertFiles_cons_of_error {file : FoundFile} {err : EngineError}
    (h : Template.ofFile fs (FilePath.templateName file.relative) file.path = .error err)
    (r : Registry) (files : List FoundFile) :
    r.insertFiles fs (file :: files) = (r, .error err) := by
  rw [insertFiles, h]

/-- Only the files before the first one that cannot be read are added. -/
theorem insertFiles_takeWhile (r : Registry) (files : List FoundFile) :
    (r.insertFiles fs (files.takeWhile (·.isReadable fs))).1 = (r.insertFiles fs files).1 := by
  induction files generalizing r with
  | nil => rfl
  | cons file files ih =>
    cases hfile : Template.ofFile fs (FilePath.templateName file.relative) file.path with
    | ok t =>
      have hreadable : file.isReadable fs = true := by rw [FoundFile.isReadable, hfile]; rfl
      rw [List.takeWhile_cons_of_pos hreadable, insertFiles_cons_of_ok hfile,
        insertFiles_cons_of_ok hfile]
      exact ih _
    -- inserting stops at the first file that cannot be read
    | error err =>
      have hunreadable : ¬ file.isReadable fs = true := by
        rw [FoundFile.isReadable, hfile]
        exact Bool.false_ne_true
      rw [List.takeWhile_cons_of_neg hunreadable, insertFiles_cons_of_error hfile]
      rfl

/-- Adding files ends well if and only if all of them can be read. -/
theorem insertFiles_eq_ok_iff (r : Registry) (files : List FoundFile) :
    (r.insertFiles fs files).2 = .ok () ↔ ∀ file ∈ files, file.isReadable fs = true := by
  induction files generalizing r with
  | nil => exact ⟨fun _ _ h => absurd h List.not_mem_nil, fun _ => rfl⟩
  | cons file files ih =>
    rw [List.forall_mem_cons]
    cases hfile : Template.ofFile fs (FilePath.templateName file.relative) file.path with
    | ok t =>
      have hreadable : file.isReadable fs = true := by rw [FoundFile.isReadable, hfile]; rfl
      rw [insertFiles_cons_of_ok hfile, ih]
      exact ⟨fun h => ⟨hreadable, h⟩, And.right⟩
    | error err =>
      -- the first file that cannot be read decides
      rw [insertFiles_cons_of_error hfile, FoundFile.isReadable, hfile]
      exact ⟨nofun, fun h => absurd h.1 Bool.false_ne_true⟩

/-- **What is found under a name** after files were added: the template from the last file of that
name, or what was there before if no file has it. -/
theorem get?_insertFiles {r r' : Registry} {files : List FoundFile}
    (h : r.insertFiles fs files = (r', .ok ())) (name : Text) :
    (∃ before file after t, files = before ++ file :: after ∧
      FilePath.templateName file.relative = name ∧
      (∀ other ∈ after, FilePath.templateName other.relative ≠ name) ∧
      Template.ofFile fs name file.path = .ok t ∧ r'.get? name = some t) ∨
    (∀ file ∈ files, FilePath.templateName file.relative ≠ name) ∧ r'.get? name = r.get? name := by
  induction files generalizing r with
  | nil =>
    obtain ⟨rfl, -⟩ := Prod.mk.inj h
    exact .inr ⟨fun _ hmem => absurd hmem List.not_mem_nil, rfl⟩
  | cons file files ih =>
    cases hfile : Template.ofFile fs (FilePath.templateName file.relative) file.path with
    | error e =>
      rw [insertFiles_cons_of_error hfile] at h
      cases (Prod.mk.inj h).2
    | ok t =>
      rw [insertFiles_cons_of_ok hfile] at h
      have hname := (Template.ofFile_eq_ok hfile).1
      rcases ih h with ⟨before, other, after, u, rfl, hother⟩ | ⟨hnone, hget⟩
      · exact .inl ⟨file :: before, other, after, u, rfl, hother⟩
      · -- no later file has the name, so it matters whether this one has it
        rw [get?_insert, hname] at hget
        split at hget
        · next heq =>
          exact .inl ⟨[], file, files, t, rfl, heq.symm, hnone, heq ▸ hfile, hget⟩
        · next hne =>
          exact .inr ⟨List.forall_mem_cons.2 ⟨Ne.symm hne, hnone⟩, hget⟩

end Registry

namespace Engine

/-! ### Loading from a glob -/

/-- Whether a text is a glob. -/
def IsGlob (glob : Text) : Prop :=
  ∃ g, Glob.ofText glob = .ok g

/-- The files that a glob finds; none if it is no glob. -/
def filesOf (fs : FileSystem) (glob : Text) : List FoundFile :=
  match Glob.ofText glob with
  | .ok g => g.files fs
  | .error _ => []

/-- Whether all files that a glob finds **can be read**. -/
def Readable (fs : FileSystem) (glob : Text) : Prop :=
  ∀ file ∈ filesOf fs glob, file.isReadable fs = true

instance (fs : FileSystem) (glob : Text) : Decidable (Readable fs glob) :=
  inferInstanceAs (Decidable (∀ file ∈ filesOf fs glob, file.isReadable fs = true))

/-- What a glob loads: the templates in the files that it finds, up to the first file that cannot be
read. -/
def loadedFrom (fs : FileSystem) (glob : Text) : Registry :=
  (Registry.insertFiles fs ∅ ((filesOf fs glob).takeWhile (·.isReadable fs))).1

/-- Loading from a glob into a place of an engine, which `put` fills. -/
def loadInto (fs : FileSystem) (glob : Text) (e : Engine) (put : Registry → Engine) :
    Engine × Except EngineError Unit :=
  match globFiles fs glob with
  | .error err => (e, .error err)
  | .ok files => (put (Registry.insertFiles fs ∅ files).1, (Registry.insertFiles fs ∅ files).2)

section Loading

variable (fs : FileSystem) {glob : Text}

theorem loadTemplates_eq (e : Engine) :
    e.loadTemplates fs glob
      = loadInto fs glob e fun r => { e with templatesGlob := some glob, templates := r } := by
  cases h : globFiles fs glob with
  | error err => simp only [loadTemplates, loadInto, h]
  | ok files => simp only [loadTemplates, loadInto, h]

theorem loadPartials_eq (e : Engine) :
    e.loadPartials fs glob
      = loadInto fs glob e fun r => { e with partialsGlob := some glob, partials := r } := by
  cases h : globFiles fs glob with
  | error err => simp only [loadPartials, loadInto, h]
  | ok files => simp only [loadPartials, loadInto, h]

theorem loadInto_of_not_isGlob (h : ¬ IsGlob glob) (e : Engine) (put : Registry → Engine) :
    ∃ err, loadInto fs glob e put = (e, .error err) := by
  cases hglob : Glob.ofText glob with
  | ok g => exact absurd ⟨g, hglob⟩ h
  | error err => exact ⟨.glob err, by rw [loadInto, globFiles, hglob]⟩

/-- Loading from a glob puts what it loads in its place, and ends well if and only if the files that
it finds can be read. -/
theorem loadInto_of_isGlob (h : IsGlob glob) (e : Engine) (put : Registry → Engine) :
    (loadInto fs glob e put).1 = put (loadedFrom fs glob) ∧
      ((loadInto fs glob e put).2 = .ok () ↔ Readable fs glob) := by
  obtain ⟨g, hglob⟩ := h
  have hfiles : filesOf fs glob = g.files fs := by rw [filesOf, hglob]
  rw [loadInto, globFiles, hglob, loadedFrom, Readable, hfiles]
  exact ⟨congrArg put (Registry.insertFiles_takeWhile ..).symm, Registry.insertFiles_eq_ok_iff ..⟩

/-- Whether a registry holds what a glob loads, all of which could be read. -/
def Loads (fs : FileSystem) (glob : Text) (r : Registry) : Prop :=
  ∃ files, globFiles fs glob = .ok files ∧ Registry.insertFiles fs ∅ files = (r, .ok ())

theorem loadInto_eq_ok {e e' : Engine} {put : Registry → Engine}
    (h : loadInto fs glob e put = (e', .ok ())) : ∃ r, Loads fs glob r ∧ e' = put r := by
  unfold loadInto at h
  split at h
  · obtain ⟨-, h⟩ := Prod.mk.inj h
    cases h
  · next files hfiles =>
    obtain ⟨rfl, hresult⟩ := Prod.mk.inj h
    exact ⟨_, ⟨files, hfiles, Prod.ext rfl hresult⟩, rfl⟩

theorem loadTemplates_of_isGlob (h : IsGlob glob) (e : Engine) :
    (e.loadTemplates fs glob).1
        = { e with templatesGlob := some glob, templates := loadedFrom fs glob } ∧
      ((e.loadTemplates fs glob).2 = .ok () ↔ Readable fs glob) := by
  rw [loadTemplates_eq]
  exact loadInto_of_isGlob fs h e _

theorem loadPartials_of_isGlob (h : IsGlob glob) (e : Engine) :
    (e.loadPartials fs glob).1
        = { e with partialsGlob := some glob, partials := loadedFrom fs glob } ∧
      ((e.loadPartials fs glob).2 = .ok () ↔ Readable fs glob) := by
  rw [loadPartials_eq]
  exact loadInto_of_isGlob fs h e _

end Loading

/-! ### Operations -/

/-- An operation that **reads files**. -/
inductive Loading where
  /-- Adds the template in a file, under the given name or else under its path. -/
  | templateFile (path : FilePath) (name : Option Text)
  | partialFile (path : FilePath) (name : Option Text)
  | templates (glob : Text)
  | partials (glob : Text)
  /-- Loads everything again that came from a glob. -/
  | reload

/-- The engine after an operation that makes a new one unless it fails. -/
def orKept (e : Engine) : Except EngineError Engine → Engine × Except EngineError Unit
  | .ok e' => (e', .ok ())
  | .error err => (e, .error err)

/-- The engine after an operation that reads files, and whether that ended well. -/
def Loading.run (fs : FileSystem) (e : Engine) : Loading → Engine × Except EngineError Unit
  | .templateFile path name => e.orKept (e.addTemplateFile fs path name)
  | .partialFile path name => e.orKept (e.addPartialFile fs path name)
  | .templates glob => e.loadTemplates fs glob
  | .partials glob => e.loadPartials fs glob
  | .reload => e.reload fs

/-- The engines that **operations lead to**, from the one without anything. The files may have
changed between any two of them. -/
inductive Reachable : Engine → Prop where
  | empty : Reachable ∅
  | addTemplate {e : Engine} (h : Reachable e) (name source : Text) :
    Reachable (e.addTemplate name source)
  | addPartial {e : Engine} (h : Reachable e) (name source : Text) :
    Reachable (e.addPartial name source)
  | setGlobals {e : Engine} (h : Reachable e) (globals : Context) :
    Reachable { e with globals := globals }
  | load {e : Engine} (h : Reachable e) (fs : FileSystem) (l : Loading) :
    Reachable (l.run fs e).1

/-! ### The globs that are kept -/

/-- Whether the globs that an engine keeps are globs. -/
structure HoldsGlobs (e : Engine) : Prop where
  templates : ∀ glob, e.templatesGlob = some glob → IsGlob glob
  partials : ∀ glob, e.partialsGlob = some glob → IsGlob glob

/-- An engine that keeps the same globs keeps globs. -/
theorem HoldsGlobs.of_eq {e e' : Engine} (h : e.HoldsGlobs)
    (htemplates : e'.templatesGlob = e.templatesGlob)
    (hpartials : e'.partialsGlob = e.partialsGlob) : e'.HoldsGlobs :=
  ⟨fun glob hglob => h.templates glob (htemplates ▸ hglob),
    fun glob hglob => h.partials glob (hpartials ▸ hglob)⟩

theorem HoldsGlobs.loadTemplates {e : Engine} (h : e.HoldsGlobs) (fs : FileSystem) (glob : Text) :
    (e.loadTemplates fs glob).1.HoldsGlobs := by
  by_cases hglob : IsGlob glob
  · rw [(loadTemplates_of_isGlob fs hglob e).1]
    exact ⟨fun other hother => Option.some.inj hother ▸ hglob, h.partials⟩
  · obtain ⟨err, herr⟩ := loadInto_of_not_isGlob fs hglob e _
    rw [loadTemplates_eq, herr]
    exact h

theorem HoldsGlobs.loadPartials {e : Engine} (h : e.HoldsGlobs) (fs : FileSystem) (glob : Text) :
    (e.loadPartials fs glob).1.HoldsGlobs := by
  by_cases hglob : IsGlob glob
  · rw [(loadPartials_of_isGlob fs hglob e).1]
    exact ⟨h.templates, fun other hother => Option.some.inj hother ▸ hglob⟩
  · obtain ⟨err, herr⟩ := loadInto_of_not_isGlob fs hglob e _
    rw [loadPartials_eq, herr]
    exact h

/-- Loading again when there is no glob of templates. -/
theorem reload_of_none {e : Engine} (h : e.templatesGlob = none) (fs : FileSystem) :
    e.reload fs = match e.partialsGlob with
      | some glob => e.loadPartials fs glob
      | none => (e, .error .nothingToReload) := by
  rw [reload, h]
  cases hpartials : e.partialsGlob with
  | none => rfl
  | some glob => simp [hpartials]

/-- Loading again when there is a glob of templates. -/
theorem reload_of_some {e : Engine} {glob : Text} (h : e.templatesGlob = some glob)
    (fs : FileSystem) :
    e.reload fs = match (e.loadTemplates fs glob).2, (e.loadTemplates fs glob).1.partialsGlob with
      | .ok (), some glob' => (e.loadTemplates fs glob).1.loadPartials fs glob'
      | result, _ => ((e.loadTemplates fs glob).1, result) := by
  rw [reload, h]
  rfl

/-- **Loading again** puts what the kept globs load in their places: the templates first, and then
the partials if all files of templates could be read. It ends well if and only if there is something
to load and all files can be read. -/
theorem HoldsGlobs.reload {e : Engine} (h : e.HoldsGlobs) (fs : FileSystem) :
    (e.reload fs).1 = { e with
        templates := (e.templatesGlob.map (loadedFrom fs)).getD e.templates
        partials := if ∀ glob ∈ e.templatesGlob, Readable fs glob then
          (e.partialsGlob.map (loadedFrom fs)).getD e.partials else e.partials } ∧
      ((e.reload fs).2 = .ok () ↔
        (e.templatesGlob.isSome ∨ e.partialsGlob.isSome) ∧
          (∀ glob ∈ e.templatesGlob, Readable fs glob) ∧
          ∀ glob ∈ e.partialsGlob, Readable fs glob) := by
  obtain ⟨templatesGlob, partialsGlob, templates, partials, globals⟩ := e
  cases templatesGlob with
  | none =>
    rw [reload_of_none rfl]
    cases partialsGlob with
    | none => simp
    | some glob =>
      obtain ⟨hfst, hsnd⟩ := loadPartials_of_isGlob fs (h.partials glob rfl)
        ⟨none, some glob, templates, partials, globals⟩
      simp only
      rw [hfst, hsnd]
      simp
  | some glob =>
    obtain ⟨hfst, hsnd⟩ := loadTemplates_of_isGlob fs (h.templates glob rfl)
      ⟨some glob, partialsGlob, templates, partials, globals⟩
    rw [reload_of_some rfl, hfst]
    cases partialsGlob with
    | none =>
      -- nothing is left to load, however the templates came out
      simpa using hsnd
    | some glob' =>
      obtain ⟨hfst', hsnd'⟩ := loadPartials_of_isGlob fs (h.partials glob' rfl)
        ⟨some glob, some glob', loadedFrom fs glob, partials, globals⟩
      split
      · next hresult hpartials =>
        obtain rfl := Option.some.inj hpartials
        rw [hfst', hsnd']
        simp [hsnd.1 hresult]
      · next hnot =>
        have hunreadable : ¬ Readable fs glob := fun hr => hnot glob' (hsnd.2 hr) rfl
        simp [hsnd, hunreadable]

theorem HoldsGlobs.run {e : Engine} (h : e.HoldsGlobs) (fs : FileSystem) (l : Loading) :
    (l.run fs e).1.HoldsGlobs := by
  cases l with
  | templateFile path name =>
    change (e.orKept (e.addTemplateFile fs path name)).1.HoldsGlobs
    rw [addTemplateFile]
    cases readTemplate fs path name with
    | ok t => exact h.of_eq rfl rfl
    | error err => exact h
  | partialFile path name =>
    change (e.orKept (e.addPartialFile fs path name)).1.HoldsGlobs
    rw [addPartialFile]
    cases readTemplate fs path name with
    | ok t => exact h.of_eq rfl rfl
    | error err => exact h
  | templates glob => exact h.loadTemplates fs glob
  | partials glob => exact h.loadPartials fs glob
  -- reloading changes the registries only
  | reload =>
    change (e.reload fs).1.HoldsGlobs
    rw [(h.reload fs).1]
    exact h.of_eq rfl rfl

/-- **The globs that an engine keeps are globs**, whatever operations led to it. -/
theorem Reachable.holdsGlobs {e : Engine} (h : e.Reachable) : e.HoldsGlobs := by
  induction h with
  | empty => exact ⟨nofun, nofun⟩
  | addTemplate _ name source ih => exact ih.of_eq rfl rfl
  | addPartial _ name source ih => exact ih.of_eq rfl rfl
  | setGlobals _ globals ih => exact ih.of_eq rfl rfl
  | load _ fs l ih => exact ih.run fs l

end Engine

end Stencil
