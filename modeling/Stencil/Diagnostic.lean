import Stencil.Span
import Stencil.Tag.Basic

/-!
# Diagnostics

Rendering never fails, but it notices three things in a template that are most likely slips: a tag
that includes a partial which does not exist, a block that nothing closes, and a block that a tag of
another kind closes. Each comes back as a diagnostic, with the place of the tag at fault in the
template that it stands in.

`Diagnostic.text` is a diagnostic in one line; `Diagnostic.report` shows the line of the template
with the tag underlined:

    warning: Partial `nav` not found
     --> index:2:2
      |
    2 |   {{> nav}}
      |   ^^^^^^^^^
-/

namespace Stencil

/-- What is at fault with a tag. -/
inductive Fault where
  /-- No partial has the name that the tag includes. -/
  | missingPartial (name : Text)
  /-- Nothing closes the block that the tag opens. -/
  | unclosedBlock (kind : BlockKind)
  /-- A tag of another kind closes the block that the tag opens. -/
  | mismatchedClose (opening closing : BlockKind)
  deriving DecidableEq, Repr

/-- A kind of block as it is written in messages. -/
def BlockKind.name (kind : BlockKind) : String :=
  String.ofList kind.keyword

/-- The message of a fault. -/
def Fault.message : Fault → String
  | missingPartial name => s!"Partial `{String.ofList name}` not found"
  | unclosedBlock kind =>
    s!"`\x7b\x7b#{kind.name}\x7d\x7d` block is never closed, " ++
      "rendering it until the end of the template"
  | mismatchedClose opening closing =>
    s!"`\x7b\x7b#{opening.name}\x7d\x7d` block is closed by `\x7b\x7b/{closing.name}\x7d\x7d`"

/-- A **fault and its place**. -/
structure Diagnostic where
  fault : Fault
  /-- The name of the template that the tag stands in. -/
  template : Text
  /-- Where the tag stands in it. -/
  span : Span
  /-- The source of the template. -/
  source : Text
  deriving DecidableEq, Repr

namespace Diagnostic

/-- A diagnostic in one line. -/
def text (d : Diagnostic) : String :=
  s!"{d.fault.message} ({String.ofList d.template}:{d.span.startLine}:{d.span.startCol})"

/-! ### Reports -/

/-- The line that a report shows: the one on which the span begins, or the nearest one that the
source has, without carriage returns at its end. -/
def line (d : Diagnostic) : Nat × Text :=
  let lines := d.source.pieces '\n'
  let number := min (max d.span.startLine 1) lines.length
  (number, Text.trimRight (· = '\r') (lines.getD (number - 1) []))

/-- How many characters are underlined: up to the end of the span if that lies on the same line, and
up to the end of the line if not; one at least. -/
def underlineWidth (d : Diagnostic) : Nat :=
  if d.span.endLine = d.span.startLine ∧ d.span.startCol < d.span.endCol then
    d.span.endCol - d.span.startCol
  else max (d.line.2.length - d.span.startCol) 1

/-- What stands under the line of a report: blanks up to the column of the span, with tabs kept, and
then carets. -/
def underline (d : Diagnostic) : Text :=
  (d.line.2.take d.span.startCol).map (fun c => if c = '\t' then '\t' else ' ') ++
    List.replicate d.underlineWidth '^'

/-- A diagnostic with the line of the template that it is about. -/
def report (d : Diagnostic) : String :=
  let number := String.ofList (decimal d.line.1)
  let padding := String.ofList (List.replicate number.length ' ')
  "\n".intercalate
    [s!"warning: {d.fault.message}",
     s!"{padding}--> {String.ofList d.template}:{number}:{d.span.startCol}",
     s!"{padding} |",
     s!"{number} | {String.ofList d.line.2}",
     s!"{padding} | {String.ofList d.underline}"]

end Diagnostic

end Stencil
