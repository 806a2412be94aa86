import Stencil.CommandLine.Arguments
import Stencil.Site.Basic

/-!
# Runs of the program

A run reads the command line, loads the site, and builds or checks it. What the command line says
goes before what the configuration file says. An error ends the run with an exit code of its own and
is the last message of the log; how much of the log is shown is up to the command line too.
-/

namespace Stencil

/-- Whether messages of a level are shown. -/
def Verbosity.shows (v : Verbosity) : LogLevel → Bool
  | .error => true
  | .warn => true
  | .info => !v.quiet
  | .debug => !v.quiet && 0 < v.verbose

/-- The root of a site if none is given: the working directory. -/
def defaultRoot : FilePath := ['.']

namespace Invocation

/-- The root of the site. -/
def root (i : Invocation) : FilePath :=
  i.options.root.getD defaultRoot

/-- A configuration with what the command line says instead of what it says itself. -/
def override (i : Invocation) (c : SiteConfig) : SiteConfig :=
  { c with
    outputDir := i.options.out.getD c.outputDir
    denyWarnings := c.denyWarnings || i.options.denyWarnings }

/-- Loads the site. -/
def loadSite (i : Invocation) : SiteAction Site := do
  let config ← SiteConfig.load i.root i.options.config
  Site.load i.root (i.override config)

/-- Does what the command line asks for. -/
def perform (i : Invocation) : SiteAction Unit := do
  let site ← i.loadSite
  match i.kind with
  | .build =>
    let _ ← site.build
    return
  | .check =>
    let report ← site.check
    SiteAction.log .info
      s!"Checked {report.pages.length} page(s): {report.diagnostics.length} warning(s)"

end Invocation

/-- The message of an error with all its causes, a line for each. -/
def SiteError.report (e : SiteError) : String :=
  e.causes.foldl (fun text cause => s!"{text}\n  caused by: {cause}") e.message

/-- The messages that are shown of a log. -/
def Verbosity.shown (v : Verbosity) (log : List LogEntry) : List LogEntry :=
  log.filter fun entry => v.shows entry.level

/-- What a run leaves behind. -/
structure RunResult where
  exitCode : ExitCode
  /-- What the program prints, apart from its log. -/
  output : String
  /-- The messages of the log that are shown. -/
  log : List LogEntry
  files : FileSystem

/-- Runs an invocation. -/
def Invocation.run (i : Invocation) (fs : FileSystem) : RunResult :=
  match SiteAction.perform i.perform ⟨fs, []⟩ with
  | (.ok (), w) => ⟨.success, "", i.verbosity.shown w.log, w.files⟩
  | (.error e, w) => ⟨e.exitCode, "", i.verbosity.shown (w.log ++ [⟨.error, e.report⟩]), w.files⟩

/-- How the program is used. -/
def usage : String :=
  "\n".intercalate
    ["Usage: brace-site [-v]... [-q] build [--root DIR] [--config FILE] [--out DIR] [--deny-warnings]",
     "       brace-site [-v]... [-q] check [--root DIR] [--config FILE] [--deny-warnings]",
     "",
     "  build            Render every page and copy the static files",
     "  check            Render every page and report problems without writing anything",
     "",
     "  --root DIR       Root directory of the site (default: .)",
     "  --config FILE    Config file to use instead of brace.json in the root",
     "  --out DIR        Output directory, overriding the config",
     "  --deny-warnings  Fail if any template produced a warning",
     "  -v, --verbose    More logging, repeat for even more",
     "  -q, --quiet      Only log warnings and errors",
     "  -h, --help       Print help",
     "  -V, --version    Print version",
     ""]

/-- What the program prints when it is asked for its version. -/
def versionText : Option CommandKind → String
  | none => "brace-site 0.1.0\n"
  | some kind => s!"brace-site-{kind.name} 0.1.0\n"

/-- Runs the program on a file system. -/
def runProgram (args : List Text) (fs : FileSystem) : RunResult :=
  match CommandLine.read args with
  | .ok i => i.run fs
  | .error .help => ⟨.success, usage, [], fs⟩
  | .error (.version kind) => ⟨.success, versionText kind, [], fs⟩
  | .error .mistake => ⟨.configError, "", [], fs⟩

end Stencil
