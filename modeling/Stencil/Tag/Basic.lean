import Stencil.Text.Alphanumeric

/-!
# Tags

A template is text with tags in it. A tag stands between two pairs of curly brackets, and may have
ASCII whitespace next to either pair; what is left inside decides what it is:

| inside | tag |
|---|---|
| `> name` | includes the partial `name` |
| `#each path`, `#if path`, `#unless path` | opens a block |
| `/each`, `/if`, `/unless` | closes a block |
| `else` | begins the other branch of a block |
| `path` | writes a value |

Whatever else stands between the brackets is no tag but plain text (`Tag.classify?` gives `none`).
-/

namespace Stencil

/-- The **kinds of blocks**: over the items of a list, under a condition, and under the negation of
one. -/
inductive BlockKind where
  | each
  | cond
  | notCond
  deriving DecidableEq, Repr

namespace BlockKind

/-- The word that names a kind in its tags. -/
def keyword : BlockKind → Text
  | each => ['e', 'a', 'c', 'h']
  | cond => ['i', 'f']
  | notCond => ['u', 'n', 'l', 'e', 's', 's']

/-- The kind that a word names. -/
def ofKeyword? (word : Text) : Option BlockKind :=
  [each, cond, notCond].find? fun kind => kind.keyword = word

end BlockKind

/-- A **tag**. -/
inductive Tag where
  /-- Includes the partial of that name. -/
  | inclusion (name : Text)
  /-- Opens a block on the value at a path. -/
  | opening (kind : BlockKind) (path : Text)
  /-- Begins the other branch of a block. -/
  | alternative
  /-- Closes a block. -/
  | closing (kind : BlockKind)
  /-- Writes the value at a path. -/
  | value (path : Text)
  deriving DecidableEq, Repr

/-- The characters of paths: letters, numbers, and `_`, `-`, `.`, `@` and `$`. -/
def isPathChar (c : Char) : Bool :=
  isAlphanumeric c || c = '_' || c = '-' || c = '.' || c = '@' || c = '$'

/-- The characters of the names of partials: letters, numbers, and `_`, `-`, `.` and `/`. -/
def isNameChar (c : Char) : Bool :=
  isAlphanumeric c || c = '_' || c = '-' || c = '.' || c = '/'

/-- Whether `t` is a path. -/
def isPath (t : Text) : Bool :=
  !t.isEmpty && t.all isPathChar

/-- Whether `t` can name a partial in a tag. -/
def isPartialName (t : Text) : Bool :=
  !t.isEmpty && t.all isNameChar

namespace Tag

/-- The word of the tag that begins the other branch of a block. -/
def elseWord : Text := ['e', 'l', 's', 'e']

/-- The tag whose inside is `inner`, without the whitespace at its ends; `none` if it is no tag. -/
def classify? (inner : Text) : Option Tag :=
  match inner with
  | '>' :: name =>
    let name := Text.trim Text.isBlank name
    if isPartialName name then some (inclusion name) else none
  | '#' :: rest => do
    let (word, path) ← Text.cutAt? Text.isBlank rest
    let kind ← BlockKind.ofKeyword? word
    let path := Text.trim Text.isBlank path
    if isPath path then some (opening kind path) else none
  | '/' :: word => (BlockKind.ofKeyword? (Text.trim Text.isBlank word)).map closing
  | _ =>
    if inner = elseWord then some alternative
    else if isPath inner then some (value inner)
    else none

end Tag

end Stencil
