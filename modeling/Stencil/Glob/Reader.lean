import Stencil.Glob.Basic

/-!
# Reading glob patterns

A pattern is read from left to right. Lists of alternatives nest; each open one keeps the
alternatives that are complete and the one that is being read. What two stars mean hangs on their
neighbours: they are components of their own in front of the pattern (or of an alternative), and
behind a slash if a slash or the end follows.
-/

namespace Stencil

/-- What has been read of a pattern, or of an open list of alternatives in it. -/
structure GlobFrame where
  /-- The alternatives that are complete, the last one first. -/
  complete : List (List GlobToken)
  /-- The parts of the one that is being read, the last one first. -/
  current : List GlobToken
  deriving Repr

/-- What has been read of a character class. -/
structure GlobClass where
  negated : Bool
  /-- The ranges, the last one first. -/
  ranges : List (Char × Char)
  /-- Whether a hyphen waits for the end of its range. -/
  open? : Bool
  deriving Repr

/-- A **place in a pattern**: the innermost open list of alternatives, or else the pattern itself;
what is open around it; and the character before. -/
structure GlobState where
  inner : GlobFrame
  outer : List GlobFrame
  before : Option Char
  deriving Repr

namespace GlobState

/-- The state with another part read, the last character of which is `c`. -/
def push (s : GlobState) (c : Char) (token : GlobToken) : GlobState :=
  { s with
    inner := { s.inner with current := token :: s.inner.current }
    before := some c }

/-- Whether a list of alternatives is open. -/
def isNested (s : GlobState) : Bool :=
  !s.outer.isEmpty

/-- The state with the last part, a slash, taken together with two stars behind it. Two stars behind
such a pair of stars add nothing. -/
def pushDirs (s : GlobState) (c : Char) (token : GlobToken) : GlobState :=
  let current := match s.inner.current with
    | .leadingDirs :: rest => .leadingDirs :: rest
    | .everythingBelow :: rest => .everythingBelow :: rest
    | _ :: rest => token :: rest
    | [] => [token]
  { s with inner := { s.inner with current }, before := some c }

/-- Whether two stars can be a component of their own behind what has been read. -/
def afterSlash (s : GlobState) : Bool :=
  s.before = some '/' || (s.isNested && (s.before = some ',' || s.before = some '\x7b'))

end GlobState

/-- What is read next: the pattern, or a character class in it. -/
inductive GlobMode where
  | pattern
  /-- Behind the bracket that opens a class, where an exclamation mark negates it. -/
  | classStart
  | inClass (c : GlobClass)
  deriving Repr

/-- The end of the range that a hyphen began. -/
def GlobClass.close (c : GlobClass) (last : Char) : Except GlobFault GlobClass :=
  match c.ranges with
  | (first, _) :: rest =>
    if last < first then .error (.invalidRange first last)
    else .ok { c with ranges := (first, last) :: rest, open? := false }
  | [] => .ok c

/-- The class with one more character read, which does not close it. -/
def GlobClass.add (c : GlobClass) (d : Char) : Except GlobFault GlobClass :=
  if c.open? then c.close d
  else if d = '-' && !c.ranges.isEmpty then .ok { c with open? := true }
  else .ok { c with ranges := (d, d) :: c.ranges }

/-- The part of a pattern that a class is. A hyphen that waits in vain stands for itself. -/
def GlobClass.token (c : GlobClass) : GlobToken :=
  let ranges := if c.open? then ('-', '-') :: c.ranges else c.ranges
  .oneOf c.negated ranges.reverse

/-- Reads a pattern from one place on. -/
def readGlob (mode : GlobMode) (s : GlobState) (t : Text) : Except GlobFault (List GlobToken) :=
  match mode, t with
  | .pattern, [] =>
    if s.isNested then .error .unclosedAlternatives else .ok s.inner.current.reverse
  | .pattern, '?' :: t => readGlob .pattern (s.push '?' .anyByte) t
  | .pattern, '*' :: '*' :: t =>
    let plain := (s.push '*' .anyName).push '*' .anyName
    if s.inner.current.isEmpty then
      match t with
      | [] => readGlob .pattern (s.push '*' .leadingDirs) []
      | '/' :: t => readGlob .pattern (s.push '/' .leadingDirs) t
      | c :: t => readGlob .pattern plain (c :: t)
    else if s.afterSlash then
      match t with
      | [] => readGlob .pattern (s.pushDirs '*' .everythingBelow) []
      | '/' :: t => readGlob .pattern (s.pushDirs '/' .innerDirs) t
      | c :: t =>
        if s.isNested && (c = ',' || c = '\x7d') then
          readGlob .pattern (s.pushDirs '*' .everythingBelow) (c :: t)
        else readGlob .pattern plain (c :: t)
    else readGlob .pattern plain t
  | .pattern, '*' :: t => readGlob .pattern (s.push '*' .anyName) t
  | .pattern, '[' :: t => readGlob .classStart s t
  | .pattern, '\x7b' :: t =>
    readGlob .pattern ⟨⟨[], []⟩, s.inner :: s.outer, some '\x7b'⟩ t
  | .pattern, '\x7d' :: t =>
    match s.outer with
    | [] => .error .unopenedAlternatives
    | frame :: outer =>
      let branches := (s.inner.current :: s.inner.complete).reverse.map List.reverse
      let s : GlobState := ⟨frame, outer, s.before⟩
      readGlob .pattern (s.push '\x7d' (.alternatives branches)) t
  | .pattern, ',' :: t =>
    if s.isNested then
      readGlob .pattern
        { s with inner := ⟨s.inner.current :: s.inner.complete, []⟩, before := some ',' } t
    else readGlob .pattern (s.push ',' (.literal ',')) t
  | .pattern, ['\\'] => .error .danglingEscape
  | .pattern, '\\' :: c :: t => readGlob .pattern (s.push c (.literal c)) t
  | .pattern, c :: t => readGlob .pattern (s.push c (.literal c)) t
  | _, [] => .error .unclosedClass
  | .classStart, c :: t =>
    if c = '!' || c = '^' then readGlob (.inClass ⟨true, [], false⟩) s t
    else readGlob (.inClass ⟨false, [(c, c)], false⟩) s t
  | .inClass c, d :: t =>
    if d = ']' && !c.ranges.isEmpty then readGlob .pattern (s.push ']' c.token) t
    else
      match c.add d with
      | .ok c => readGlob (.inClass c) s t
      | .error fault => .error fault
termination_by t.length

/-- Reads a glob pattern. -/
def GlobPattern.ofText (t : Text) : Except GlobFault GlobPattern :=
  match readGlob .pattern ⟨⟨[], []⟩, [], none⟩ t with
  | .ok tokens => .ok ⟨tokens⟩
  | .error fault => .error fault

end Stencil
