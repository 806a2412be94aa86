import Stencil.File.Basic

/-!
# Changes to a file system

Files are written and copied, and directories are made, by path. A change that fails leaves the
file system as it was; only `makeDirectories`, which makes one directory after the other, may have
made some of them when it fails.

* `write_of_present`, `write_of_vacant` — what writing changes: the node at one place.
-/

namespace Stencil.FileSystem

/-- The file system with `new` at a place. -/
def put (fs : FileSystem) (place : Place) (new : Node) : FileSystem :=
  { fs with root := fs.root.put place new }

/-- The file system in which the file that a path leads to holds `content`. If nothing is there, the
file is made. -/
def write (fs : FileSystem) (p : FilePath) (content : ByteArray) : Except IoFault FileSystem :=
  match fs.resolve true p with
  | .error e => .error e
  | .ok (.vacant directory name asDirectory) =>
    if asDirectory then .error .isADirectory
    else .ok (fs.put (directory ++ [name]) (.file content))
  | .ok (.present place) =>
    match fs.root.at? place with
    | some (.file _) => .ok (fs.put place (.file content))
    | _ => .error .isADirectory

theorem write_of_present {fs : FileSystem} {p : FilePath} {content old : ByteArray} {place : Place}
    (h : fs.resolve true p = .ok (.present place)) (hold : fs.root.at? place = some (.file old)) :
    fs.write p content = .ok (fs.put place (.file content)) := by
  simp [write, h, hold]

theorem write_of_vacant {fs : FileSystem} {p : FilePath} {content : ByteArray} {place : Place}
    {name : Text} (h : fs.resolve true p = .ok (.vacant place name false)) :
    fs.write p content = .ok (fs.put (place ++ [name]) (.file content)) := by
  simp [write, h]

/-- The file system in which the file at `target` holds what the file at `source` holds. The target
is emptied first, so a file that is copied to itself ends up empty. -/
def copy (fs : FileSystem) (source target : FilePath) : Except IoFault FileSystem :=
  match fs.find source with
  | .error e => .error e
  | .ok (place, .file _) =>
    match fs.write target .empty with
    | .error e => .error e
    | .ok emptied =>
      match emptied.root.at? place with
      | some (.file content) => emptied.write target content
      | _ => .ok emptied
  | .ok _ => .error .notRegular

/-! ### Directories -/

/-- A path without the slashes at its end, unless it has nothing else. -/
def withoutSlashes (p : FilePath) : FilePath :=
  let bare := Text.trimRight (· = '/') p
  if bare.isEmpty then p else bare

/-- The file system with a new directory at a path. A link at the end of the path is not followed:
something is there already. -/
def makeDirectory (fs : FileSystem) (p : FilePath) : Except IoFault FileSystem :=
  -- slashes at the end lead nowhere, but the path gets longer by them
  if maxPathSize < p.size ∧ '\x00' ∉ p then .error .nameTooLong
  else
    match fs.resolve false (withoutSlashes p) with
    | .error e => .error e
    | .ok (.present _) => .error .alreadyExists
    | .ok (.vacant directory name asDirectory) =>
      -- a path that goes on behind a free name leads nowhere
      if asDirectory then .error .notFound
      else .ok (fs.put (directory ++ [name]) .emptyDirectory)

/-- The file system with directories at a path and at its parents, and the fault if it failed. What
already is a directory stays one. -/
def makeDirectories (fs : FileSystem) (p : FilePath) : FileSystem × Option IoFault :=
  if p.isEmpty then (fs, none)
  else
    match fs.makeDirectory p with
    | .ok made => (made, none)
    | .error .notFound =>
      match _h : p.parent? with
      | none => (fs, some .notFound)
      | some parent =>
        match fs.makeDirectories parent with
        | (fs, some e) => (fs, some e)
        | (fs, none) =>
          match fs.makeDirectory p with
          | .ok made => (made, none)
          | .error e => (fs, if fs.isDirectory p then none else some e)
    | .error e => (fs, if fs.isDirectory p then none else some e)
termination_by p.length
decreasing_by exact FilePath.length_parent?_lt _h

/-! ### Removing -/

/-- The file system without the node at a path, and without everything below it. A link at the end
of the path is not followed. -/
def remove (fs : FileSystem) (p : FilePath) : Except IoFault FileSystem :=
  match fs.resolve false p with
  | .error e => .error e
  | .ok (.vacant ..) => .error .notFound
  | .ok (.present place) => .ok { fs with root := fs.root.erase place }

/-- The file system with a link at a path. -/
def makeLink (fs : FileSystem) (p target : FilePath) : Except IoFault FileSystem :=
  match fs.resolve false p with
  | .error e => .error e
  | .ok (.present _) => .error .alreadyExists
  | .ok (.vacant directory name asDirectory) =>
    if asDirectory then .error .notFound
    else .ok (fs.put (directory ++ [name]) (.link target))

end Stencil.FileSystem
