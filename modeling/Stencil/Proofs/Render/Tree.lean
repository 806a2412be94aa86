import Stencil.Proofs.Tag.Nesting
import Stencil.Render.Basic

/-!
# Templates as trees

The renderer finds its way through the text of a template tag by tag, and scans for the end of a
block each time it comes to one. This module reads a text once instead, into a tree, and says what a
tree writes.

Reading goes through the tags from the front and keeps the blocks that are open (`Parser`). An
opening tag opens a block inside the innermost open one; a closing tag ends the innermost open
block, whatever its kind, and is text if there is none; the end of the text ends all blocks that are
still open. The body of an `if` block is split where it ends, at the first separating tag that
stands in it directly (`splitAlternative`).

What a tree writes (`evalAll`) is a recursion on the tree. Partials are the one thing that a tree
does not hold, so their meaning is a parameter of it.
-/

namespace Stencil

/-! ### Trees -/

/-- What a tree keeps of the two tags of a block. -/
structure BlockHead where
  path : Text
  /-- The byte at which the opening tag begins. -/
  start : Nat
  /-- The byte behind the opening tag. -/
  stop : Nat
  /-- The kind of the closing tag; `none` if the text ended first. -/
  close : Option BlockKind
  deriving DecidableEq, Repr

/-- A **fragment of a template**: a node of its tree. -/
inductive Fragment where
  | text (t : Text)
  | value (path : Text)
  /-- A `{{else}}`; where it separates no branches, it stands for the value of that name. -/
  | alternative
  /-- The tag that includes a partial, with its first byte and the byte behind it. -/
  | inclusion (name : Text) (start stop : Nat)
  | each (head : BlockHead) (body : List Fragment)
  | cond (head : BlockHead) (first : List Fragment) (other? : Option (List Fragment))
  | notCond (head : BlockHead) (body : List Fragment)

/-- The two branches of a body; the second is `none` if nothing separates them. -/
def splitAlternative : List Fragment → List Fragment × Option (List Fragment)
  | [] => ([], none)
  | .alternative :: rest => ([], some rest)
  | x :: rest => (x :: (splitAlternative rest).1, (splitAlternative rest).2)

/-! ### Reading a text -/

/-- A **block that is open**: its opening tag, and what stands before it where it was opened. -/
structure Frame where
  kind : BlockKind
  path : Text
  start : Nat
  stop : Nat
  before : List Fragment

/-- The block, once it has ended with that body. -/
def Frame.block (f : Frame) (close : Option BlockKind) (body : List Fragment) : Fragment :=
  let head : BlockHead := ⟨f.path, f.start, f.stop, close⟩
  match f.kind with
  | .each => .each head body
  | .cond => .cond head (splitAlternative body).1 (splitAlternative body).2
  | .notCond => .notCond head body

/-- What has been read: the fragments since the innermost open block began, and the open blocks, the
innermost one first. -/
structure Parser where
  fragments : List Fragment
  frames : List Frame

namespace Parser

/-- Adds a fragment where the parser is. -/
def push (p : Parser) (x : Fragment) : Parser :=
  { p with fragments := p.fragments ++ [x] }

/-- Reads a tag and the text before it. -/
def step (p : Parser) (k : Token) : Parser :=
  let p := p.push (.text k.before)
  match k.tag with
  | .value path => p.push (.value path)
  | .alternative => p.push .alternative
  | .inclusion name => p.push (.inclusion name k.start k.stop)
  | .opening kind path => ⟨[], ⟨kind, path, k.start, k.stop, p.fragments⟩ :: p.frames⟩
  | .closing kind =>
    match p.frames with
    | [] => p.push (.text k.lexeme)
    | f :: outer => ⟨f.before ++ [f.block (some kind) p.fragments], outer⟩

/-- Ends the blocks that are still open, the innermost one first. -/
def finish (fragments : List Fragment) : List Frame → List Fragment
  | [] => fragments
  | f :: outer => finish (f.before ++ [f.block none fragments]) outer

/-- Goes on with some tags and with the text behind the last of them, to the end. -/
def parse (p : Parser) (ks : List Token) (last : Text) : List Fragment :=
  let p := (ks.foldl step p).push (.text last)
  finish p.fragments p.frames

end Parser

/-- The tree of tags and of the text behind the last of them. -/
def treeOf (ks : List Token) (last : Text) : List Fragment :=
  Parser.parse ⟨[], []⟩ ks last

/-- The **tree of a template**. -/
def Template.tree (t : Template) : List Fragment :=
  treeOf (tokens 0 t.source) (lastText t.source)

/-! ### What trees write -/

/-- What is at fault with the end of a block, if anything. -/
def BlockKind.endFault? (kind : BlockKind) (close : Option BlockKind) : Option Fault :=
  match close with
  | none => some (.unclosedBlock kind)
  | some close => if close = kind then none else some (.mismatchedClose kind close)

/-- What is to be said about the end of a block of `template`. -/
def BlockHead.report (head : BlockHead) (template : Template) (kind : BlockKind) : Rendered :=
  match kind.endFault? head.close with
  | none => ∅
  | some fault => .ofDiagnostic (template.diagnostic fault head.start head.stop)

mutual

/-- What a fragment of `template` writes in a scope, when `included` is what partials write. -/
def Fragment.eval (partials : Registry) (included : Template → Scope → Rendered)
    (template : Template) : Fragment → Scope → Rendered
  | .text t, _ => .ofText t
  | .value path, scope => .ofText (scope.lookup path).printed
  | .alternative, scope => .ofText (scope.lookup Tag.elseWord).printed
  | .inclusion name start stop, scope =>
    match partials.get? name with
    | none => .ofDiagnostic (template.diagnostic (.missingPartial name) start stop)
    | some t => included t scope
  | .each head body, scope =>
    let items := (scope.lookup head.path).items?.getD []
    head.report template .each ++ .join (items.mapIdx fun index item =>
      evalAll partials included template body (.iteration scope item index items.length))
  | .cond head first other?, scope =>
    head.report template .cond ++
      if (scope.lookup head.path).isTruthy then evalAll partials included template first scope
      else
        match other? with
        | none => ∅
        | some other => evalAll partials included template other scope
  | .notCond head body, scope =>
    head.report template .notCond ++
      if (scope.lookup head.path).isTruthy then ∅
      else evalAll partials included template body scope

/-- What fragments write, one after the other. -/
def evalAll (partials : Registry) (included : Template → Scope → Rendered)
    (template : Template) : List Fragment → Scope → Rendered
  | [], _ => ∅
  | x :: rest, scope =>
    x.eval partials included template scope ++ evalAll partials included template rest scope

end

section Eval

variable (partials : Registry) (included : Template → Scope → Rendered) (template : Template)

/-- An `if` block without a second branch writes no more than what is to be said about its end, if
its value is false. -/
theorem Fragment.eval_cond (head : BlockHead) (first : List Fragment)
    (other? : Option (List Fragment)) (scope : Scope) :
    (Fragment.cond head first other?).eval partials included template scope
      = head.report template .cond ++
        if (scope.lookup head.path).isTruthy then evalAll partials included template first scope
        else (other?.map fun other => evalAll partials included template other scope).getD ∅ := by
  cases other? with
  | none =>
    rw [Fragment.eval]
    rfl
  | some other =>
    rw [Fragment.eval]
    rfl

theorem evalAll_singleton (y : Fragment) (scope : Scope) :
    evalAll partials included template [y] scope = y.eval partials included template scope := by
  rw [evalAll, evalAll, Rendered.append_empty]

theorem evalAll_text_cons (t : Text) (y : Fragment) (rest : List Fragment) (scope : Scope) :
    evalAll partials included template (.text t :: y :: rest) scope
      = .ofText t ++ y.eval partials included template scope ++
        evalAll partials included template rest scope := by
  rw [evalAll, evalAll, Fragment.eval, Rendered.append_assoc]

end Eval

end Stencil
