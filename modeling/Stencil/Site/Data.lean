import Stencil.Context
import Stencil.Site.Action

/-!
# The data of a site

Every file directly in the data directory whose extension is `json` becomes a name that all pages
see: `speakers.json` becomes `speakers`. The files are read in the order of their names. A missing
directory means that there is no data.

The names in a file system are texts here. Where a name of a file need not be UTF-8, a data file
whose name is not is passed over with a warning, and becomes no name.
-/

namespace Stencil

/-- The name that a data file becomes; `none` if the file is no data file. -/
def dataName? (fileName : Text) : Option Text :=
  match FilePath.cutExtension? fileName with
  | some (stem, extension) => if extension = "json".toList then some stem else none
  | none => none

/-- The data files among the entries of a directory, by the names that they become. -/
def dataFiles (entries : List (Text × Node)) : List (Text × Text) :=
  entries.filterMap fun (fileName, node) =>
    if node.isFile then (dataName? fileName).map fun name => (name, fileName) else none

namespace SiteAction

/-- Reads a data file. -/
def readData (path : FilePath) : SiteAction Datum := do
  log .debug s!"Loading data file {String.ofList path}"
  let text ← readText path
  match Datum.ofJson text with
  | .ok datum => pure datum
  | .error fault => throw (.json path fault)

/-- Reads data files of a directory into a context. -/
def readAllData (directory : FilePath) (context : Context) :
    List (Text × Text) → SiteAction Context
  | [] => pure context
  | (name, fileName) :: rest => do
    let datum ← readData (directory.join fileName)
    readAllData directory (context.insertDatum name datum) rest

/-- Reads the data of a site. -/
def loadData (directory : FilePath) : SiteAction Context := do
  match (← files).find directory with
  | .ok (_, .directory entries) => readAllData directory ∅ (dataFiles entries)
  | _ =>
    log .debug s!"No data directory at {String.ofList directory}"
    pure ∅

end SiteAction

end Stencil
