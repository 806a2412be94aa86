import Stencil.File.Path
import Stencil.Json.Datum

/-!
# The configuration of a site

A site says where its sources are and where its pages go. Everything has a default; a configuration
file in JSON replaces what it mentions, and whatever else it mentions is skipped, at any depth.

A configuration is usable if all its directories have names, the extension of its pages is one, and
the output directory neither is, nor holds, nor lies in a directory of sources
(`SiteConfig.validate`).
-/

namespace Stencil

/-- The **configuration of a site**. Directories are relative to the root of the site. -/
structure SiteConfig where
  /-- Every data file directly in it becomes a name that all pages see. -/
  dataDir : FilePath
  /-- Partials, named by their paths in it. -/
  partialsDir : FilePath
  /-- Pages, named by their paths in it. -/
  pagesDir : FilePath
  /-- Files that are copied as they are. -/
  staticDir : FilePath
  /-- Where the pages are written. -/
  outputDir : FilePath
  /-- The extension of the written pages. -/
  pageExtension : Text
  /-- Whether a build fails if there is anything to say about a template. -/
  denyWarnings : Bool
  deriving DecidableEq, Repr

namespace SiteConfig

/-- What holds where nothing is configured. -/
def standard : SiteConfig where
  dataDir := "data".toList
  partialsDir := "partials".toList
  pagesDir := "pages".toList
  staticDir := "static".toList
  outputDir := "dist".toList
  pageExtension := "html".toList
  denyWarnings := false

instance : Inhabited SiteConfig := ⟨standard⟩

/-- The directories of a configuration, with their names in configuration files. -/
def directories (c : SiteConfig) : List (String × FilePath) :=
  [("data_dir", c.dataDir), ("partials_dir", c.partialsDir), ("pages_dir", c.pagesDir),
    ("static_dir", c.staticDir), ("output_dir", c.outputDir)]

/-- The directories that hold sources, with their names in configuration files. -/
def sourceDirectories (c : SiteConfig) : List (String × FilePath) :=
  [("data_dir", c.dataDir), ("partials_dir", c.partialsDir), ("pages_dir", c.pagesDir),
    ("static_dir", c.staticDir)]

end SiteConfig

/-! ### Faults -/

/-- How an output directory is in the way of a directory of sources. -/
inductive Overlap where
  | same
  /-- It lies in the directory. -/
  | inside
  /-- It holds the directory. -/
  | around
  deriving DecidableEq, Repr

/-- What is wrong with a configuration. -/
inductive ConfigFault where
  /-- The text is not the JSON that was expected. -/
  | json (fault : JsonFault)
  /-- The text has neither the fields of a configuration by name, nor in a list. -/
  | noFields
  /-- A field has a value of another type. -/
  | wrongType (field : String)
  | repeatedField (field : String)
  /-- A list of fields has more values than there are fields. -/
  | tooManyFields
  | emptyDirectory (field : String)
  | emptyExtension
  /-- The extension of the pages begins with a point. -/
  | dottedExtension (extension : Text)
  | overlap (how : Overlap) (field : String)
  deriving DecidableEq, Repr

/-- A relation of two directories in words. -/
def Overlap.words : Overlap → String
  | same => "be the same directory as"
  | inside => "be inside"
  | around => "contain"

/-- The message of a fault. -/
def ConfigFault.message : ConfigFault → String
  | json fault => s!"failed to parse config JSON: {fault.message}"
  | noFields => "failed to parse config JSON: expected the fields of a configuration"
  | wrongType field => s!"failed to parse config JSON: invalid type for field `{field}`"
  | repeatedField field => s!"failed to parse config JSON: duplicate field `{field}`"
  | tooManyFields => "failed to parse config JSON: trailing characters"
  | emptyDirectory field => s!"`{field}` can't be empty"
  | emptyExtension => "`page_extension` can't be empty"
  | dottedExtension extension =>
    let bare := extension.dropWhile (· = '.')
    s!"`page_extension` must not have a leading dot (found '{String.ofList extension}'). " ++
      s!"Use '{String.ofList bare}' instead."
  | overlap how field => s!"`output_dir` can't {how.words} `{field}`"

/-! ### Validation -/

/-- How the directory `output` is in the way of the directory `source`, if it is. Only the spelling
of the paths decides. -/
def Overlap.ofPaths? (output source : FilePath) : Option Overlap :=
  let output := output.bareSteps
  let source := source.bareSteps
  if source = output then some .same
  else if source.isPrefixOf output then some .inside
  else if output.isPrefixOf source then some .around
  else none

namespace SiteConfig

/-- What is wrong with a configuration, the first thing first. -/
def faults (c : SiteConfig) : List ConfigFault :=
  (c.directories.filter (·.2.isEmpty)).map (fun d => .emptyDirectory d.1) ++
    (if c.pageExtension.isEmpty then [.emptyExtension] else []) ++
    (if c.pageExtension.head? = some '.' then [.dottedExtension c.pageExtension] else []) ++
    c.sourceDirectories.filterMap fun d =>
      (Overlap.ofPaths? c.outputDir d.2).map fun how => .overlap how d.1

/-- Accepts a usable configuration, or says what is wrong with it first. -/
def validate (c : SiteConfig) : Except ConfigFault Unit :=
  match c.faults with
  | [] => .ok ()
  | fault :: _ => .error fault

theorem validate_eq_ok_iff {c : SiteConfig} : c.validate = .ok () ↔ c.faults = [] := by
  unfold validate
  split <;> simp_all

end SiteConfig

/-! ### Fields in a file -/

/-- A field of a configuration file. -/
inductive ConfigField where
  | dataDir
  | partialsDir
  | pagesDir
  | staticDir
  | outputDir
  | pageExtension
  | denyWarnings
  deriving DecidableEq, Repr

namespace ConfigField

/-- The fields, in the order in which a list gives them. -/
def all : List ConfigField :=
  [dataDir, partialsDir, pagesDir, staticDir, outputDir, pageExtension, denyWarnings]

/-- The name of a field. -/
def name : ConfigField → String
  | dataDir => "data_dir"
  | partialsDir => "partials_dir"
  | pagesDir => "pages_dir"
  | staticDir => "static_dir"
  | outputDir => "output_dir"
  | pageExtension => "page_extension"
  | denyWarnings => "deny_warnings"

/-- The field of that name. -/
def ofName? (t : Text) : Option ConfigField :=
  all.find? fun field => field.name.toList = t

/-- The text that a field is given. -/
def textOf (field : ConfigField) : JsonTree → Except ConfigFault Text
  | .string s =>
    match s.toText with
    | .ok t => .ok t
    | .error e => .error (.json e)
  | _ => .error (.wrongType field.name)

/-- The configuration in which a field has a value. -/
def set (field : ConfigField) (v : JsonTree) (c : SiteConfig) : Except ConfigFault SiteConfig :=
  match field with
  | dataDir => (field.textOf v).map fun t => { c with dataDir := t }
  | partialsDir => (field.textOf v).map fun t => { c with partialsDir := t }
  | pagesDir => (field.textOf v).map fun t => { c with pagesDir := t }
  | staticDir => (field.textOf v).map fun t => { c with staticDir := t }
  | outputDir => (field.textOf v).map fun t => { c with outputDir := t }
  | pageExtension => (field.textOf v).map fun t => { c with pageExtension := t }
  | denyWarnings =>
    match v with
    | .bool b => .ok { c with denyWarnings := b }
    | _ => .error (.wrongType field.name)

end ConfigField

namespace SiteConfig

/-- The configuration in which the members of an object set its fields, each at most once; `seen`
are the fields that have been set. -/
def setMembers (seen : List ConfigField) (c : SiteConfig) :
    List (JsonString × JsonTree) → Except ConfigFault SiteConfig
  | [] => .ok c
  | (name, v) :: rest =>
    match name.toText with
    | .error e => .error (.json e)
    | .ok name =>
      match ConfigField.ofName? name with
      | none => setMembers seen c rest
      | some field =>
        if field ∈ seen then .error (.repeatedField field.name)
        else
          match field.set v c with
          | .ok c => setMembers (field :: seen) c rest
          | .error e => .error e

/-- The configuration in which the items of a list set its fields in order. -/
def setItems (c : SiteConfig) : List ConfigField → List JsonTree → Except ConfigFault SiteConfig
  | _, [] => .ok c
  | [], _ :: _ => .error .tooManyFields
  | field :: fields, v :: rest =>
    match field.set v c with
    | .ok c => setItems c fields rest
    | .error e => .error e

/-- The configuration that a JSON text describes, whether it is usable or not. -/
def ofTree : JsonTree → Except ConfigFault SiteConfig
  | .object members => setMembers [] standard members
  | .array items => setItems standard ConfigField.all items
  | _ => .error .noFields

/-- The usable configuration that a text in JSON describes. -/
def ofJson (t : Text) : Except ConfigFault SiteConfig :=
  match JsonTree.ofText? t with
  | none => .error (.json .malformed)
  | some tree =>
    match ofTree tree with
    | .error e => .error e
    | .ok c =>
      match c.validate with
      | .ok () => .ok c
      | .error e => .error e

end SiteConfig

end Stencil
