import Stencil.File.Fault
import Stencil.File.Node
import Stencil.Text.Utf8

/-!
# File systems

A file system is a tree of files and the place in it at which relative paths begin. Looking up a
path goes step by step, follows the links on the way, and ends at a node or at a free name in a
directory (`FileSystem.resolve`). All reading rests on that: `find` gives what is there, `read` and
`readText` give the content of a file, and `canonical?` gives the path to it that leads through no
link.
-/

namespace Stencil

/-- A **file system**. -/
structure FileSystem where
  /-- The topmost directory. -/
  root : Node
  /-- The place at which relative paths begin. -/
  workingDirectory : Place
  deriving Inhabited

/-- Where a path leads. -/
inductive Resolved where
  /-- To the node at that place. -/
  | present (place : Place)
  /-- To a name that is free in the directory at that place; `asDirectory` says that only a
  directory can be meant. -/
  | vacant (directory : Place) (name : Text) (asDirectory : Bool)
  deriving DecidableEq, Repr

/-- How many links a path may lead through. -/
def maxLinks : Nat := 40

/-- How many bytes a name may have. -/
def maxNameSize : Nat := 255

/-- How many bytes a path may have. -/
def maxPathSize : Nat := 4095

/-- Where some steps lead from a place, through at most `links` links. A link at the end counts as
the node itself if `followLast` does not hold. -/
def Node.resolveSteps (root : Node) (followLast : Bool) (links : Nat) (here : Place) :
    List Step → Except IoFault Resolved
  | [] => .ok (.present here)
  | .top :: rest => root.resolveSteps followLast links [] rest
  | .stay :: rest =>
    if (root.entriesAt? here).isSome then root.resolveSteps followLast links here rest
    else .error .notADirectory
  | .up :: rest =>
    if (root.entriesAt? here).isSome then root.resolveSteps followLast links here.dropLast rest
    else .error .notADirectory
  | .down name :: rest =>
    match root.entriesAt? here with
    | none => .error .notADirectory
    | some entries =>
      if maxNameSize < name.size then .error .nameTooLong
      else
        match NameMap.find? name entries, links with
        | none, _ =>
          if rest.all (· = .stay) then .ok (.vacant here name (!rest.isEmpty))
          else .error .notFound
        | some (.link target), links =>
          if rest.isEmpty && !followLast then .ok (.present (here ++ [name]))
          else
            match links with
            | 0 => .error .tooManyLinks
            | links + 1 => root.resolveSteps followLast links here (target.steps ++ rest)
        | some _, links => root.resolveSteps followLast links (here ++ [name]) rest
termination_by steps => (links, steps.length)

namespace FileSystem

/-- Where a path leads. A link at the end of the path is followed, or else counts as the node
itself. -/
def resolve (fs : FileSystem) (followLast : Bool) (p : FilePath) : Except IoFault Resolved :=
  if p.contains '\x00' then .error .invalidPath
  else if p.isEmpty then .error .notFound
  else if maxPathSize < p.size then .error .nameTooLong
  else fs.root.resolveSteps followLast maxLinks fs.workingDirectory p.steps

/-- The place that a path leads to, and the node there. -/
def find (fs : FileSystem) (p : FilePath) : Except IoFault (Place × Node) :=
  match fs.resolve true p with
  | .ok (.present place) =>
    match fs.root.at? place with
    | some node => .ok (place, node)
    | none => .error .notFound
  | .ok (.vacant ..) => .error .notFound
  | .error e => .error e

/-- Whether a path leads to a directory. -/
def isDirectory (fs : FileSystem) (p : FilePath) : Bool :=
  match fs.find p with
  | .ok (_, node) => node.isDirectory
  | .error _ => false

/-- Whether a path leads to a file. -/
def isFile (fs : FileSystem) (p : FilePath) : Bool :=
  match fs.find p with
  | .ok (_, node) => node.isFile
  | .error _ => false

/-- The bytes of the file that a path leads to. -/
def read (fs : FileSystem) (p : FilePath) : Except IoFault ByteArray :=
  match fs.find p with
  | .ok (_, .file content) => .ok content
  | .ok _ => .error .isADirectory
  | .error e => .error e

/-- The text of the file that a path leads to. -/
def readText (fs : FileSystem) (p : FilePath) : Except IoFault Text :=
  match fs.read p with
  | .ok content =>
    match Text.ofBytes? content with
    | some t => .ok t
    | none => .error .invalidText
  | .error e => .error e

/-- The path from the topmost directory to a place. -/
def pathTo (place : Place) : FilePath :=
  FilePath.joinNames ['/'] place

/-- The path without links to where `p` leads, if anything is there. -/
def canonical? (fs : FileSystem) (p : FilePath) : Option FilePath :=
  match fs.find p with
  | .ok (place, _) => some (pathTo place)
  | .error _ => none

end FileSystem

end Stencil
