import Stencil.File.Path

/-!
# Command lines

A command line is read argument by argument, and the first argument that decides the outcome does
so: a request for help or for the version, or a mistake. Flags about logging may stand before and
behind the name of the command. Options have a value, either behind an equals sign or as the next
argument, which then must not look like a flag; an option or a flag may be given only once, but `-v`
may be repeated. Flags of one letter can share a dash.
-/

namespace Stencil

/-- What the program is asked to do with a site. -/
inductive CommandKind where
  /-- Render every page, write the pages, and copy the static files. -/
  | build
  /-- Render every page, and report without writing anything. -/
  | check
  deriving DecidableEq, Repr

/-- The name of a command. -/
def CommandKind.name : CommandKind → String
  | build => "build"
  | check => "check"

/-- What the flags about logging say. -/
structure Verbosity where
  /-- How often more was asked for. -/
  verbose : Nat
  /-- Whether only warnings and errors are asked for. -/
  quiet : Bool
  deriving DecidableEq, Repr

/-- What the options of a command say. -/
structure CommandOptions where
  root : Option FilePath
  config : Option FilePath
  out : Option FilePath
  denyWarnings : Bool
  deriving DecidableEq, Repr

/-- A **command line** that asks for a command. -/
structure Invocation where
  kind : CommandKind
  options : CommandOptions
  verbosity : Verbosity
  deriving DecidableEq, Repr

/-- Why a command line asks for no command. -/
inductive Detour where
  | help
  /-- The version, of the program or of one of its commands. -/
  | version (kind : Option CommandKind)
  | mistake
  deriving DecidableEq, Repr

namespace CommandLine

/-- What one level of a command line, before or behind the name of the command, has said so far. -/
structure Level where
  /-- The command, behind its name. -/
  kind : Option CommandKind
  verbosity : Verbosity
  options : CommandOptions
  deriving DecidableEq, Repr

/-- A level on which nothing has been said. -/
def Level.start (kind : Option CommandKind) : Level :=
  ⟨kind, ⟨0, false⟩, ⟨none, none, none, false⟩⟩

/-! ### Flags -/

/-- One more request for more. -/
def Level.addVerbose (l : Level) : Level :=
  { l with verbosity := { l.verbosity with verbose := l.verbosity.verbose + 1 } }

/-- The request for less, which may be made once. -/
def Level.addQuiet (l : Level) : Except Detour Level :=
  if l.verbosity.quiet then .error .mistake
  else .ok { l with verbosity := { l.verbosity with quiet := true } }

/-- The request to deny warnings, which may be made once. -/
def Level.addDenyWarnings (l : Level) : Except Detour Level :=
  if l.options.denyWarnings then .error .mistake
  else .ok { l with options := { l.options with denyWarnings := true } }

/-- A flag of one letter. -/
def Level.addLetter (l : Level) (c : Char) : Except Detour Level :=
  match c with
  | 'v' => .ok l.addVerbose
  | 'q' => l.addQuiet
  | 'h' => .error .help
  | 'V' => .error (.version l.kind)
  | _ => .error .mistake

/-- A flag with a name; `none` if that is no flag. -/
def Level.addFlag? (l : Level) (name : String) : Option (Except Detour Level) :=
  match name, l.kind with
  | "verbose", _ => some (.ok l.addVerbose)
  | "quiet", _ => some l.addQuiet
  | "help", _ => some (.error .help)
  | "version", kind => some (.error (.version kind))
  | "deny-warnings", some _ => some l.addDenyWarnings
  | _, _ => none

/-! ### Options -/

/-- An option with a value. -/
inductive OptionName where
  | root
  | config
  | out
  deriving DecidableEq, Repr

/-- The option of that name, if the level has it. -/
def Level.option? (l : Level) (name : String) : Option OptionName :=
  match name, l.kind with
  | "root", some _ => some .root
  | "config", some _ => some .config
  | "out", some .build => some .out
  | _, _ => none

/-- The value of an option, which may be given once and is not empty. -/
def Level.setOption (l : Level) (name : OptionName) (value : Text) : Except Detour Level :=
  if value.isEmpty then .error .mistake
  else
    let o := l.options
    match name with
    | .root =>
      if o.root.isSome then .error .mistake
      else .ok { l with options := { o with root := some value } }
    | .config =>
      if o.config.isSome then .error .mistake
      else .ok { l with options := { o with config := some value } }
    | .out =>
      if o.out.isSome then .error .mistake
      else .ok { l with options := { o with out := some value } }

/-! ### Arguments -/

/-- What an argument looks like. -/
inductive Argument where
  /-- Two dashes: no flags follow. -/
  | endOfFlags
  /-- A name behind two dashes, perhaps with a value behind an equals sign. -/
  | long (name : String) (value : Option Text)
  /-- Letters behind one dash. -/
  | letters (cs : List Char)
  | word (t : Text)
  deriving DecidableEq, Repr

/-- What an argument is. -/
def Argument.ofText : Text → Argument
  | ['-', '-'] => .endOfFlags
  | '-' :: '-' :: t =>
    match Text.cutAt? (· = '=') t with
    | some (name, value) => .long (String.ofList name) (some value)
    | none => .long (String.ofList t) none
  | '-' :: c :: cs => .letters (c :: cs)
  | t => .word t

/-- Whether an argument can be the value of an option before it. -/
def Argument.isWord : Argument → Bool
  | .word _ => true
  | _ => false

/-- Reads the arguments behind the name of a command. -/
def readOptions (l : Level) : List Text → Except Detour Level
  | [] => .ok l
  | arg :: rest =>
    match Argument.ofText arg with
    | .endOfFlags => if rest.isEmpty then .ok l else .error .mistake
    | .word _ => .error .mistake
    | .letters cs =>
      match cs.foldlM Level.addLetter l with
      | .ok l => readOptions l rest
      | .error e => .error e
    | .long name value =>
      match l.addFlag? name, l.option? name, value, rest with
      | some _, _, some _, _ => .error .mistake
      | some (.ok l), _, none, rest => readOptions l rest
      | some (.error e), _, none, _ => .error e
      | none, none, _, _ => .error .mistake
      | none, some _, none, [] => .error .mistake
      | none, some option, none, value :: rest =>
        if (Argument.ofText value).isWord then
          match l.setOption option value with
          | .ok l => readOptions l rest
          | .error e => .error e
        else .error .mistake
      | none, some option, some value, rest =>
        match l.setOption option value with
        | .ok l => readOptions l rest
        | .error e => .error e

/-- Whether two flags about logging contradict each other on one level. -/
def Level.isContradictory (l : Level) : Bool :=
  l.verbosity.quiet && 0 < l.verbosity.verbose

/-- The invocation of a command. A level behind the name of the command says more about logging than
the one before it. -/
def combine (outer inner : Level) (kind : CommandKind) : Except Detour Invocation :=
  if inner.isContradictory || outer.isContradictory then .error .mistake
  else
    let verbose :=
      if 0 < inner.verbosity.verbose then inner.verbosity.verbose else outer.verbosity.verbose
    .ok ⟨kind, inner.options, ⟨verbose, inner.verbosity.quiet || outer.verbosity.quiet⟩⟩

/-- The command of that name. -/
def commandNamed? (t : Text) : Option CommandKind :=
  [CommandKind.build, .check].find? fun kind => kind.name.toList = t

/-- What the names behind `help` ask for. -/
def readHelp : List Text → Detour
  | [] => .help
  | [t] => if (commandNamed? t).isSome || t = "help".toList then .help else .mistake
  | _ => .mistake

/-- Reads the arguments before the name of a command, and the rest. -/
def readCommand (l : Level) : List Text → Except Detour Invocation
  | [] => .error .mistake
  | arg :: rest =>
    match Argument.ofText arg with
    | .endOfFlags => .error .mistake
    | .letters cs =>
      match cs.foldlM Level.addLetter l with
      | .ok l => readCommand l rest
      | .error e => .error e
    | .long name value =>
      match l.addFlag? name, value with
      | some (.ok l), none => readCommand l rest
      | some (.error e), none => .error e
      | _, _ => .error .mistake
    | .word t =>
      match commandNamed? t with
      | some kind =>
        match readOptions (.start (some kind)) rest with
        | .ok inner => combine l inner kind
        | .error e => .error e
      | none => .error (if t = "help".toList then readHelp rest else .mistake)

/-- Reads the arguments of the program. -/
def read (args : List Text) : Except Detour Invocation :=
  readCommand (.start none) args

end CommandLine

end Stencil
