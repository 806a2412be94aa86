import Stencil.Engine.Output
import Stencil.Site.Data

/-!
# Sites

A site is a directory of data, partials, pages and static files. Loading it reads everything that
the pages need; after that the files may change, and the pages stay the same. Checking renders every
page and reports what is worth saying about the templates; building also writes the pages and copies
the static files. When warnings are denied, neither gets further than rendering if there are any.

The static directory is copied as it is: directories are made, empty ones too, and files are copied
byte for byte, through links as if they were what they lead to. A missing directory means that there
is nothing to copy. What is copied first is up to the order in which directories list their entries.
-/

namespace Stencil

/-- A **site** whose data, partials and pages have been loaded. -/
structure Site where
  root : FilePath
  config : SiteConfig
  engine : Engine

/-- What a check or a build went through. -/
structure BuildReport where
  /-- The names of the pages, in their order. -/
  pages : List Text
  /-- How many static files were copied. -/
  assets : Nat
  diagnostics : List Diagnostic
  deriving DecidableEq, Repr

/-- A page that has been rendered. -/
structure RenderedPage where
  name : Text
  rendered : Rendered
  deriving DecidableEq, Repr

/-- The name of the configuration file in the root of a site. -/
def configFileName : Text := "brace.json".toList

/-- The names that only one page sees: `page` is its name, and `page_` with the name behind it is
true. -/
def pageContext (name : Text) : Context :=
  ((∅ : Context).insert "page".toList (.text name)).insert ("page_".toList ++ name) (.bool true)

/-- The glob of every file below a directory. -/
def globBelow (directory : FilePath) : Text :=
  directory ++ "/**/*".toList

/-! ### Configuration -/

/-- Reads the configuration of the site at `root`. A file that is given must exist; without one, the
file in the root is read if there is one. -/
def SiteConfig.load (root : FilePath) (path? : Option FilePath) : SiteAction SiteConfig := do
  let fallback := root.join configFileName
  let path ← match path? with
    | some path => pure path
    | none =>
      if !(← SiteAction.files).isFile fallback then
        SiteAction.log .debug
          s!"No {String.ofList configFileName} in {String.ofList root}, using defaults"
        return .standard
      pure fallback
  SiteAction.log .debug s!"Loading config from {String.ofList path}"
  match SiteConfig.ofJson (← SiteAction.readText path) with
  | .ok config => pure config
  | .error fault => throw (.config fault)

/-! ### Static files -/

/-- An **order of visits**: the order in which directories list what a walk through them meets. -/
structure VisitOrder where
  arrange : List Visit → List Visit
  perm : ∀ visits, (arrange visits).Perm visits

/-- The order in which a walk goes by the names of entries. -/
def VisitOrder.byName : VisitOrder :=
  ⟨id, fun _ => .refl _⟩

namespace SiteAction

/-- Copies what a walk met, and counts the files. -/
def copyVisits (source target : FilePath) : List Visit → SiteAction Nat
  | [] => pure 0
  | .fault names fault :: _ => throw (.access (source.joinNames names) (.walk fault))
  | .barred names fault :: _ => do
    makeDirectories (target.join (Text.unpieces '/' names))
    throw (.access (source.joinNames names) (.walk (.io fault)))
  | .directory names :: rest => do
    makeDirectories (target.join (Text.unpieces '/' names))
    copyVisits source target rest
  | .file names :: rest => do
    let relative := Text.unpieces '/' names
    let copied := target.join relative
    if let some parent := copied.parent? then makeDirectories parent
    let path := source.joinNames names
    change path fun fs => fs.copy path copied
    log .debug s!"Copied {String.ofList relative}"
    return (← copyVisits source target rest) + 1

/-- Copies everything in the directory `source` into `target`, in the order in which directories
list their entries, and counts the files. -/
def copyStaticIn (order : VisitOrder) (source target : FilePath) : SiteAction Nat := do
  let fs ← files
  if fs.isDirectory source then copyVisits source target (order.arrange (fs.walk source))
  else
    log .debug s!"No static directory at {String.ofList source}"
    pure 0

/-- Copies everything in the directory `source` into `target`, by name, and counts the files. -/
def copyStatic (source target : FilePath) : SiteAction Nat :=
  copyStaticIn .byName source target

end SiteAction

namespace Site

/-! ### Loading -/

/-- Stops if an engine did. -/
def engineOf (result : Engine × Except EngineError Unit) : SiteAction Engine :=
  match result with
  | (e, .ok ()) => pure e
  | (_, .error err) => throw (.engine err)

/-- Loads the site at `root`. Nothing is rendered yet. -/
def load (root : FilePath) (config : SiteConfig) : SiteAction Site := do
  if let .error fault := config.validate then throw (.config fault)
  let globals ← SiteAction.loadData (root.join config.dataDir)
  let fs ← SiteAction.files
  let engine : Engine := { (∅ : Engine) with globals }
  let engine ← engineOf (engine.loadPartials fs (globBelow (root.join config.partialsDir)))
  let engine ← engineOf (engine.loadTemplates fs (globBelow (root.join config.pagesDir)))
  SiteAction.log .debug <|
    s!"Loaded {engine.templates.size} page(s) and {engine.partials.size} partial(s) " ++
      s!"from {String.ofList root}"
  if engine.templates.size = 0 then
    SiteAction.log .warn s!"No pages found in {String.ofList (root.join config.pagesDir)}"
  return ⟨root, config, engine⟩

/-! ### Rendering -/

/-- The directory that the pages are written into. -/
def outputDir (s : Site) : FilePath :=
  s.root.join s.config.outputDir

/-- The file that a page is written to. -/
def pagePath (s : Site) (name : Text) : FilePath :=
  s.outputDir.join (name ++ '.' :: s.config.pageExtension)

/-- All pages, rendered in the order of their names. -/
def renderedPages (s : Site) : List RenderedPage :=
  s.engine.templates.templates.entries.map fun (name, template) =>
    ⟨name, s.engine.renderIn template (pageContext name)⟩

/-- What is worth saying about the templates of some pages. -/
def diagnosticsOf (pages : List RenderedPage) : List Diagnostic :=
  pages.flatMap (·.rendered.diagnostics)

/-- What the log says about rendering a page. -/
def renderLog (page : RenderedPage) : List LogEntry :=
  ⟨.debug, s!"Rendering {String.ofList page.name}"⟩ ::
    page.rendered.diagnostics.map fun d => ⟨.warn, d.report⟩

/-- Goes on with pages that have been rendered, or stops if there are warnings and they are
denied. -/
def acceptPages (s : Site) (pages : List RenderedPage) : SiteAction (List RenderedPage) := do
  modify fun w => { w with log := w.log ++ pages.flatMap renderLog }
  let warnings := (diagnosticsOf pages).length
  if s.config.denyWarnings && 0 < warnings then throw (.warningsDenied warnings)
  return pages

/-- Reports on rendered pages, without writing anything. -/
def checkPages (s : Site) (pages : List RenderedPage) : SiteAction BuildReport := do
  let pages ← s.acceptPages pages
  return ⟨pages.map (·.name), 0, diagnosticsOf pages⟩

/-- Renders every page and reports on it, without writing anything. -/
def check (s : Site) : SiteAction BuildReport :=
  s.checkPages s.renderedPages

/-! ### Building -/

/-- Writes a page. -/
def writePage (s : Site) (page : RenderedPage) : SiteAction Unit := do
  let path := s.pagePath page.name
  if let some parent := path.parent? then SiteAction.makeDirectories parent
  SiteAction.change path fun fs => fs.write path page.rendered.output.toBytes
  SiteAction.log .info s!"Wrote {String.ofList path}"

/-- Writes pages one after the other. -/
def writePages (s : Site) : List RenderedPage → SiteAction Unit
  | [] => pure ()
  | page :: rest => do
    s.writePage page
    s.writePages rest

/-- Writes rendered pages, and copies the static files in the order in which directories list
them. -/
def buildPages (s : Site) (order : VisitOrder) (pages : List RenderedPage) :
    SiteAction BuildReport := do
  let pages ← s.acceptPages pages
  SiteAction.makeDirectories s.outputDir
  s.writePages pages
  let assets ← SiteAction.copyStaticIn order (s.root.join s.config.staticDir) s.outputDir
  SiteAction.log .info <|
    s!"Built {pages.length} page(s) and copied {assets} static file(s) " ++
      s!"into {String.ofList s.outputDir}"
  return ⟨pages.map (·.name), assets, diagnosticsOf pages⟩

/-- Renders every page, writes the pages, and copies the static files in that order. -/
def buildIn (s : Site) (order : VisitOrder) : SiteAction BuildReport :=
  s.buildPages order s.renderedPages

/-- Renders every page, writes the pages, and copies the static files by name. -/
def build (s : Site) : SiteAction BuildReport :=
  s.buildIn .byName

end Site

/-! ### Showing a site -/

/-- How one character of a path is shown: as in a quoted text, but with a backslash before an
apostrophe too. -/
def FilePath.shownChar (c : Char) : Text :=
  if c = '\x27' then ['\\', c] else Text.quotedChar c

/-- A path as text, for programmers. -/
def FilePath.debugText (p : FilePath) : Text :=
  '"' :: p.flatMap FilePath.shownChar ++ ['"']

/-- A configuration as text, for programmers. -/
def SiteConfig.debugText (c : SiteConfig) : Text :=
  let fields := c.directories.map fun d => d.1.toList ++ ": ".toList ++ FilePath.debugText d.2
  let extension := "page_extension: ".toList ++ c.pageExtension.quoted
  let deny := (if c.denyWarnings then "deny_warnings: true" else "deny_warnings: false").toList
  "SiteConfig \x7b ".toList ++ ", ".toList.intercalate (fields ++ [extension, deny]) ++
    " \x7d".toList

/-- A site as text, for programmers. -/
def Site.debugText (s : Site) : Text :=
  "Site \x7b root: ".toList ++ FilePath.debugText s.root ++ ", config: ".toList ++
    s.config.debugText ++ ", brace: ".toList ++ s.engine.debugText ++ " \x7d".toList

end Stencil
