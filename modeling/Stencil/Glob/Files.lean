import Stencil.File.Walk
import Stencil.Glob.Matching
import Stencil.Glob.Reader

/-!
# The files that a glob finds

A glob is a directory and a pattern. The directory is the text before the first star, taken
literally, so its name may hold brackets; the pattern is the rest, and describes paths below the
directory. What is found comes in the order of a walk. A directory that cannot be opened holds
nothing, which is no error.
-/

namespace Stencil

/-- Why a text is no glob. -/
inductive GlobError where
  /-- There is no star in it. -/
  | withoutStar (glob : Text)
  /-- What begins at its first star is no pattern. -/
  | badPattern (pattern : Text) (fault : GlobFault)
  deriving DecidableEq, Repr

/-- The message of an error. -/
def GlobError.message : GlobError → String
  | withoutStar glob => s!"Not a valid glob: no `*` were found in `{String.ofList glob}`"
  | badPattern pattern fault =>
    s!"Glob is invalid: error parsing glob '{String.ofList pattern}': {fault.reason}"

/-- A **glob**: a directory, and a pattern for paths below it. -/
structure Glob where
  directory : FilePath
  pattern : GlobPattern
  deriving Repr

/-- A file that a glob found. -/
structure FoundFile where
  /-- The path at which it can be read. -/
  path : FilePath
  /-- The path to it from the directory of the glob. -/
  relative : FilePath
  deriving DecidableEq, Repr

namespace Glob

/-- The glob that a text describes. -/
def ofText (t : Text) : Except GlobError Glob :=
  let directory := t.takeWhile (· ≠ '*')
  let pattern := t.dropWhile (· ≠ '*')
  if pattern.isEmpty then .error (.withoutStar t)
  else
    match GlobPattern.ofText pattern with
    | .ok p => .ok ⟨directory, p⟩
    | .error e => .error (.badPattern pattern e)

/-- The relative path of some names, always with slashes between them. -/
def relativePath (names : List Text) : FilePath :=
  (Text.unpieces '/' names).map fun c => if c = '\\' then '/' else c

/-- The names that a walk met at what is no directory, as far as its path tells. -/
def fileNames? : Visit → Option (List Text)
  | .file names => some names
  | .barred names _ => some names
  | .directory _ => none
  | .fault .. => none

/-- The files at and below a path, each by the names that lead to it from there. -/
def filesBelow (fs : FileSystem) (p : FilePath) : List (List Text) :=
  if fs.isFile p then [[]] else (fs.walk p).filterMap fileNames?

/-- The files that the glob finds. -/
def files (g : Glob) (fs : FileSystem) : List FoundFile :=
  match fs.canonical? g.directory with
  | none => []
  | some base =>
    ((filesBelow fs base).map fun names => ⟨base.joinNames names, relativePath names⟩).filter
      fun file => g.pattern.matches file.relative

end Glob

end Stencil
