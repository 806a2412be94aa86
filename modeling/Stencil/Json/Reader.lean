import Stencil.Json.Token

/-!
# Reading JSON texts

A JSON text is read token by token. What is open at a point is a stack of lists and objects, each
with what it holds so far; a token either fits at that point, and leads to the next one, or the text
is malformed. Nothing has to be tried twice, and nesting may be as deep as it likes.
-/

namespace Stencil

namespace JsonTree

/-- Members of an object that have been read, the last one first. -/
abbrev Members := List (JsonString × JsonTree)

/-- A list or an object that is still open where a value is read. -/
inductive Container where
  /-- A list with the items before the value, the last one first. -/
  | items (before : List JsonTree)
  /-- An object with the members before the value, and the name of the value. -/
  | member (before : Members) (name : JsonString)
  deriving Repr

/-- What has been read so far, by what may come next. -/
inductive Reading where
  /-- A value. -/
  | atValue (outer : List Container)
  /-- The first item of a list, or its end. -/
  | atFirstItem (outer : List Container)
  /-- The name of the first member of an object, or its end. -/
  | atFirstName (outer : List Container)
  /-- The name of a further member. -/
  | atName (before : Members) (outer : List Container)
  /-- The colon behind a name. -/
  | atColon (before : Members) (name : JsonString) (outer : List Container)
  /-- What goes on after a value. -/
  | after (v : JsonTree) (outer : List Container)
  deriving Repr

/-- Reads a token where a value must begin. -/
def Reading.begin (outer : List Container) : JsonToken → Option Reading
  | .null => some (.after .null outer)
  | .bool b => some (.after (.bool b) outer)
  | .number n => some (.after (.number n) outer)
  | .string s => some (.after (.string s) outer)
  | .openArray => some (.atFirstItem outer)
  | .openObject => some (.atFirstName outer)
  | _ => none

/-- Reads a token. -/
def Reading.next : Reading → JsonToken → Option Reading
  | .atValue outer, token => begin outer token
  | .atFirstItem outer, .closeArray => some (.after (.array []) outer)
  | .atFirstItem outer, token => begin (.items [] :: outer) token
  | .atFirstName outer, .closeObject => some (.after (.object []) outer)
  | .atFirstName outer, .string s => some (.atColon [] s outer)
  | .atName before outer, .string s => some (.atColon before s outer)
  | .atColon before name outer, .colon => some (.atValue (.member before name :: outer))
  | .after v (.items before :: outer), .comma => some (.atValue (.items (v :: before) :: outer))
  | .after v (.items before :: outer), .closeArray =>
    some (.after (.array (v :: before).reverse) outer)
  | .after v (.member before name :: outer), .comma => some (.atName ((name, v) :: before) outer)
  | .after v (.member before name :: outer), .closeObject =>
    some (.after (.object ((name, v) :: before).reverse) outer)
  | _, _ => none

/-- The value that has been read, if nothing is open. -/
def Reading.result? : Reading → Option JsonTree
  | .after v [] => some v
  | _ => none

/-- Reads a JSON text. -/
def ofText? (t : Text) : Option JsonTree := do
  let tokens ← JsonToken.all? t
  let reading ← tokens.foldlM Reading.next (.atValue [])
  reading.result?

end JsonTree

end Stencil
