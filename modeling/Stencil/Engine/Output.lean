import Stencil.Engine.Basic
import Stencil.Render.Basic

/-!
# What engines give

An engine renders a template by its name, or a source that is given to it. A page is rendered as a
whole before any of it is written. A sink takes bytes until it is full, and is flushed when all
bytes have been taken; both can fail.

* `Sink.write_of_size_le` — a sink with enough room takes everything.
-/

namespace Stencil

namespace Engine

/-! ### Rendering -/

/-- Renders a template in a context. -/
def renderIn (e : Engine) (template : Template) (context : Context) : Rendered :=
  renderTemplate e.partials template (.root context e.globals)

/-- Renders the template of that name. -/
def render (e : Engine) (name : Text) (context : Context) : Except EngineError Rendered :=
  match e.templates.get? name with
  | some template => .ok (e.renderIn template context)
  | none => .error (.templateNotFound name)

/-- Renders a source that is no template of the engine. -/
def renderSource (e : Engine) (source : Text) (context : Context) : Rendered :=
  e.renderIn (.ofSource oneOffName source) context

end Engine

/-! ### Sinks -/

/-- Something that **takes bytes**. -/
structure Sink where
  /-- How many bytes it takes; without a bound if there is none. -/
  room : Option Nat
  /-- What is wrong with a write when there is no room left. -/
  fullFault : IoFault
  /-- What is wrong with flushing, if it fails. -/
  flushFault : Option IoFault
  deriving DecidableEq, Repr

/-- What became of a write: how many bytes were taken, and the fault if it failed. -/
structure Written where
  taken : Nat
  fault : Option IoFault
  deriving DecidableEq, Repr

/-- Writes a text to a sink, and flushes it. -/
def Sink.write (s : Sink) (t : Text) : Written :=
  match s.room with
  | none => ⟨t.size, s.flushFault⟩
  | some room => if t.size ≤ room then ⟨t.size, s.flushFault⟩ else ⟨room, some s.fullFault⟩

theorem Sink.write_of_size_le {s : Sink} {t : Text} {room : Nat} (h : s.room = some room)
    (hsize : t.size ≤ room) : s.write t = ⟨t.size, s.flushFault⟩ := by
  simp [write, h, hsize]

/-- Renders the template of that name into a sink: how many bytes the sink took, and the
diagnostics. -/
def Engine.renderTo (e : Engine) (name : Text) (context : Context) (sink : Sink) :
    Nat × Except EngineError (List Diagnostic) :=
  match e.render name context with
  | .error err => (0, .error err)
  | .ok rendered =>
    match sink.write rendered.output with
    | ⟨taken, none⟩ => (taken, .ok rendered.diagnostics)
    | ⟨taken, some fault⟩ => (taken, .error (.ofFault fault))

/-! ### Showing an engine -/

namespace Engine

/-- The parts of a list in brackets. -/
def bracketed (parts : List Text) : Text :=
  '[' :: (", ".toList.intercalate parts ++ [']'])

/-- A text or its absence, for programmers. -/
def optionText : Option Text → Text
  | some t => "Some(".toList ++ t.quoted ++ [')']
  | none => "None".toList

/-- An engine as text, for programmers: its globs and the names of its templates. -/
def debugText (e : Engine) : Text :=
  "Brace \x7b templates_glob: ".toList ++ optionText e.templatesGlob ++
    ", partials_glob: ".toList ++ optionText e.partialsGlob ++
    ", templates: ".toList ++ bracketed (e.templates.names.map Text.quoted) ++
    ", partials: ".toList ++ bracketed (e.partials.names.map Text.quoted) ++ ", .. \x7d".toList

end Engine

end Stencil
