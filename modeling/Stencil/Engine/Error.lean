import Stencil.Context
import Stencil.File.Fault
import Stencil.Glob.Files

/-!
# Errors of an engine

Rendering itself never fails. What can fail is finding a template by its name, reading templates
from files, and writing what was rendered.
-/

namespace Stencil

/-- Why an engine could not do what it was asked for. -/
inductive EngineError where
  /-- Something else that a program using the engine reports, with its cause if it has one. -/
  | other (message : Text) (cause : Option Text)
  /-- No template has the name. -/
  | templateNotFound (name : Text)
  /-- Reading or writing failed, with a message about the fault. -/
  | io (fault : IoFault) (detail : Text)
  /-- The file of a template could not be opened. -/
  | cannotOpen (path : FilePath) (fault : IoFault)
  /-- The file of a template was opened but could not be read. -/
  | cannotRead (path : FilePath) (fault : IoFault)
  | glob (error : GlobError)
  /-- No glob was ever loaded, so there is nothing to load again. -/
  | nothingToReload
  deriving DecidableEq, Repr

namespace EngineError

/-- The error that a fault of writing is. -/
def ofFault (fault : IoFault) : EngineError :=
  .io fault fault.message.toList

/-- The message of an error. -/
def message : EngineError → String
  | other message _ => String.ofList message
  | templateNotFound name => s!"Template '{String.ofList name}' not found"
  | io fault _ => s!"Io error while reading or writing a template: {fault.name}"
  | cannotOpen path _ => s!"Couldn't open template '{String.ofList path}'"
  | cannotRead path _ => s!"Failed to read template '{String.ofList path}'"
  | glob error => error.message
  | nothingToReload => "Reloading is only available if you are using a glob"

/-- The message of what caused an error, if something else did. -/
def cause? : EngineError → Option String
  | other _ cause => cause.map String.ofList
  | io _ detail => some (String.ofList detail)
  | cannotOpen _ fault => some fault.message
  | cannotRead _ fault => some fault.message
  | templateNotFound _ => none
  | glob _ => none
  | nothingToReload => none

end EngineError

end Stencil
