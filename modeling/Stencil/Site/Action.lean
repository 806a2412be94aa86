import Stencil.File.Change
import Stencil.Site.Error

/-!
# Actions of a site builder

Loading and building a site read and change files, write a log, and may stop with an error. What was
done before the error stays done.
-/

namespace Stencil

/-- How much a message matters. -/
inductive LogLevel where
  | debug
  | info
  | warn
  | error
  deriving DecidableEq, Repr

/-- The name of a level. -/
def LogLevel.name : LogLevel → String
  | debug => "DEBUG"
  | info => "INFO"
  | warn => "WARN"
  | error => "ERROR"

/-- A message of a log. -/
structure LogEntry where
  level : LogLevel
  message : String
  deriving DecidableEq, Repr

/-- What actions work on: the files, and the log so far. -/
structure World where
  files : FileSystem
  log : List LogEntry

/-- An **action** of a site builder. -/
abbrev SiteAction := ExceptT SiteError (StateM World)

namespace SiteAction

/-- Adds a message to the log. -/
def log (level : LogLevel) (message : String) : SiteAction Unit :=
  modify fun w => { w with log := w.log ++ [⟨level, message⟩] }

/-- The files as they are now. -/
def files : SiteAction FileSystem := do
  return (← get).files

/-- Stops if a fault came up while accessing a path. -/
def accessing {α : Type} (path : FilePath) : Except IoFault α → SiteAction α
  | .ok a => pure a
  | .error fault => throw (.access path (.io fault))

/-- Reads the text of a file. -/
def readText (path : FilePath) : SiteAction Text := do
  accessing path ((← files).readText path)

/-- Changes the files in a way that may fail; `path` is what the error mentions. -/
def change (path : FilePath) (f : FileSystem → Except IoFault FileSystem) : SiteAction Unit := do
  let files ← accessing path (f (← files))
  modify fun w => { w with files }

/-- Makes a directory and its parents. -/
def makeDirectories (path : FilePath) : SiteAction Unit := do
  let (files, fault) := (← files).makeDirectories path
  modify fun w => { w with files }
  match fault with
  | none => pure ()
  | some fault => throw (.access path (.io fault))

/-- What an action does to a world, and how it ends. -/
def perform {α : Type} (action : SiteAction α) (w : World) : Except SiteError α × World :=
  StateT.run (ExceptT.run action) w

end SiteAction

end Stencil
