import Stencil.Engine.Error
import Stencil.Template

/-!
# Engines

An engine holds the templates of pages, the partials that they include, and the names that all
renders share. Templates and partials are added as sources, from single files, or from all files
that a glob finds; the globs are kept, so that everything can be loaded again when files have
changed.

Loading from a glob starts from an empty registry and adds file by file, so when a file cannot be
read, the files before it have been added already.
-/

namespace Stencil

/-- An **engine**. -/
structure Engine where
  /-- The glob that the templates were last loaded from. -/
  templatesGlob : Option Text
  /-- The glob that the partials were last loaded from. -/
  partialsGlob : Option Text
  templates : Registry
  partials : Registry
  globals : Context

/-- The template in the file at a path. Opening a directory succeeds, and reading it fails. -/
def Template.ofFile (fs : FileSystem) (name : Text) (path : FilePath) :
    Except EngineError Template :=
  match fs.find path with
  | .error e => .error (.cannotOpen path e)
  | .ok _ =>
    match fs.readText path with
    | .error e => .error (.cannotRead path e)
    | .ok source => .ok ⟨name, source, some path⟩

/-- The registry with the templates in some files, one after the other, up to the first one that
cannot be read. -/
def Registry.insertFiles (fs : FileSystem) (r : Registry) :
    List FoundFile → Registry × Except EngineError Unit
  | [] => (r, .ok ())
  | file :: rest =>
    match Template.ofFile fs (FilePath.templateName file.relative) file.path with
    | .ok t => (r.insert t).insertFiles fs rest
    | .error e => (r, .error e)

namespace Engine

/-- The engine without anything. -/
def empty : Engine := ⟨none, none, ∅, ∅, ∅⟩

instance : EmptyCollection Engine := ⟨empty⟩

instance : Inhabited Engine := ⟨∅⟩

/-! ### Single templates -/

/-- The engine with a template. -/
def addTemplate (e : Engine) (name source : Text) : Engine :=
  { e with templates := e.templates.insert (.ofSource name source) }

/-- The engine with a partial. -/
def addPartial (e : Engine) (name source : Text) : Engine :=
  { e with partials := e.partials.insert (.ofSource name source) }

/-- The template in a file, under the given name or else under its path without extension. -/
def readTemplate (fs : FileSystem) (path : FilePath) (name : Option Text) :
    Except EngineError Template :=
  Template.ofFile fs (name.getD (FilePath.templateName path)) path

/-- The engine with the template in a file. -/
def addTemplateFile (fs : FileSystem) (e : Engine) (path : FilePath) (name : Option Text) :
    Except EngineError Engine :=
  (readTemplate fs path name).map fun t => { e with templates := e.templates.insert t }

/-- The engine with the partial in a file. -/
def addPartialFile (fs : FileSystem) (e : Engine) (path : FilePath) (name : Option Text) :
    Except EngineError Engine :=
  (readTemplate fs path name).map fun t => { e with partials := e.partials.insert t }

/-! ### Globs -/

/-- The files that a glob finds, if it is one. -/
def globFiles (fs : FileSystem) (glob : Text) : Except EngineError (List FoundFile) :=
  match Glob.ofText glob with
  | .ok g => .ok (g.files fs)
  | .error e => .error (.glob e)

/-- The engine whose templates are the files that a glob finds. -/
def loadTemplates (fs : FileSystem) (glob : Text) (e : Engine) : Engine × Except EngineError Unit :=
  match globFiles fs glob with
  | .error err => (e, .error err)
  | .ok files =>
    let (templates, result) := Registry.insertFiles fs ∅ files
    ({ e with templatesGlob := some glob, templates }, result)

/-- The engine whose partials are the files that a glob finds. -/
def loadPartials (fs : FileSystem) (glob : Text) (e : Engine) : Engine × Except EngineError Unit :=
  match globFiles fs glob with
  | .error err => (e, .error err)
  | .ok files =>
    let (partials, result) := Registry.insertFiles fs ∅ files
    ({ e with partialsGlob := some glob, partials }, result)

/-- The engine with everything loaded again that came from a glob: the templates, and then the
partials unless loading the templates failed. -/
def reload (fs : FileSystem) (e : Engine) : Engine × Except EngineError Unit :=
  if e.templatesGlob.isNone && e.partialsGlob.isNone then (e, .error .nothingToReload)
  else
    let (e, result) := match e.templatesGlob with
      | some glob => e.loadTemplates fs glob
      | none => (e, .ok ())
    match result, e.partialsGlob with
    | .ok (), some glob => e.loadPartials fs glob
    | result, _ => (e, result)

end Engine

end Stencil
