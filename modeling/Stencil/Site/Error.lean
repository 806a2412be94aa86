import Stencil.Engine.Error
import Stencil.File.Walk
import Stencil.Site.Config

/-!
# Errors of a site

Everything here stops a build. What is worth saying about a template is no error, unless warnings
are denied. Each error has an exit code for the command line, and a chain of causes.
-/

namespace Stencil

/-- Why a file or directory could not be accessed. -/
inductive AccessFault where
  | io (fault : IoFault)
  /-- A walk stopped at the path, below the directory where it began. -/
  | walk (fault : WalkFault)
  deriving DecidableEq, Repr

/-- Why a site could not be built. -/
inductive SiteError where
  /-- A file or directory could not be accessed. -/
  | access (path : FilePath) (fault : AccessFault)
  /-- A data file is not valid JSON. -/
  | json (path : FilePath) (fault : JsonFault)
  | config (fault : ConfigFault)
  | engine (error : EngineError)
  /-- There were warnings, and they are denied. -/
  | warningsDenied (count : Nat)
  deriving DecidableEq, Repr

namespace SiteError

/-- The message of an error. -/
def message : SiteError → String
  | access path _ => s!"Failed to access `{String.ofList path}`"
  | json path _ => s!"Invalid JSON in `{String.ofList path}`"
  | config fault => s!"Invalid configuration: {fault.message}"
  | engine error => error.message
  | warningsDenied count => s!"{count} warning(s) while rendering and warnings are denied"

/-- The messages of what caused an error, each the cause of the one before it. -/
def causes : SiteError → List String
  | access _ (.io fault) => [fault.message]
  | access path (.walk (.io fault)) =>
    [s!"IO error for operation on {String.ofList path}: {fault.message}", fault.message]
  | access path (.walk .loop) => [s!"File system loop found: {String.ofList path}"]
  | json _ fault => [fault.message]
  | config _ => []
  | engine error => error.cause?.toList
  | warningsDenied _ => []

end SiteError

/-! ### Exit codes -/

/-- How a run of the program ends. -/
inductive ExitCode where
  | success
  /-- A template could not be found or loaded. -/
  | engineFailure
  /-- The configuration or the command line is not usable. -/
  | configError
  /-- A data file is not valid JSON. -/
  | dataError
  /-- Reading sources or writing the output failed. -/
  | ioFailure
  /-- There were warnings, and they are denied. -/
  | warningsDenied
  deriving DecidableEq, Repr

/-- The number that the program returns. -/
def ExitCode.toNat : ExitCode → Nat
  | success => 0
  | engineFailure => 1
  | configError => 2
  | dataError => 3
  | ioFailure => 4
  | warningsDenied => 5

theorem ExitCode.toNat_injective {a b : ExitCode} (h : a.toNat = b.toNat) : a = b := by
  cases a <;> cases b <;> simp_all [toNat]

/-- The exit code of an error. -/
def SiteError.exitCode : SiteError → ExitCode
  | access .. => .ioFailure
  | json .. => .dataError
  | config _ => .configError
  | engine _ => .engineFailure
  | warningsDenied _ => .warningsDenied

end Stencil
