import Stencil.Text.Utf8

/-!
# Glob patterns

A glob pattern describes relative paths, which are compared with it byte by byte in UTF-8:

* `?` stands for one byte, and `*` for any number of them, but neither for a slash;
* `**` as a whole component of the path stands for any number of components; where it is only a part
  of one, it is like `*`;
* `[ab]` and `[a-z]` stand for one of the bytes listed, and with `!` or `^` behind the bracket for
  one of the others, which may also be a slash;
* `{a,b}` stands for one of the patterns in it, of which empty ones do not count;
* a backslash takes away the meaning of the character behind it.

Everything else stands for itself. `GlobPattern.Describes` says which paths a pattern describes.
-/

namespace Stencil

/-- A **part of a glob pattern**. -/
inductive GlobToken where
  | literal (c : Char)
  /-- One byte that is no slash. -/
  | anyByte
  /-- Bytes that are no slashes. -/
  | anyName
  /-- Nothing, or components with a slash behind each: `**` in front of the pattern. -/
  | leadingDirs
  /-- A slash, or components with a slash before and behind each: `**` between slashes. -/
  | innerDirs
  /-- A slash and everything below: `**` at the end. -/
  | everythingBelow
  /-- One byte of some ranges of characters, or one that lies in none of them. -/
  | oneOf (negated : Bool) (ranges : List (Char × Char))
  | alternatives (branches : List (List GlobToken))
  deriving Repr, Inhabited

/-- Why a text is no glob pattern. -/
inductive GlobFault where
  /-- A bracket is never closed. -/
  | unclosedClass
  /-- The end of a range comes before its beginning. -/
  | invalidRange (first last : Char)
  /-- A list of alternatives is never closed. -/
  | unclosedAlternatives
  /-- A list of alternatives is closed that was never opened. -/
  | unopenedAlternatives
  /-- Nothing stands behind the last backslash. -/
  | danglingEscape
  deriving DecidableEq, Repr

/-- What is wrong, in words. -/
def GlobFault.reason : GlobFault → String
  | unclosedClass => "unclosed character class; missing ']'"
  | invalidRange first last =>
    s!"invalid range; '{String.ofList [first]}' > '{String.ofList [last]}'"
  | unclosedAlternatives => "unclosed alternate group; missing '\x7d'"
  | unopenedAlternatives => "unopened alternate group; missing '\x7b'"
  | danglingEscape => "dangling '\\'"

/-! ### What patterns stand for -/

namespace GlobToken

/-- The byte that divides the components of a path. -/
def slash : UInt8 := 47

/-- Whether `b` is one of the bytes that a range of characters lists. In a range of characters
beyond ASCII, the bytes between the last byte of the first character and the first byte of the last
one are listed, and the other bytes of both. -/
def rangeLists (range : Char × Char) (b : UInt8) : Bool :=
  let first := String.utf8EncodeChar range.1
  let last := String.utf8EncodeChar range.2
  if range.1 = range.2 then first.contains b
  else
    first.dropLast.contains b || (first.getLastD 0 ≤ b && b ≤ last.headD 0) || last.tail.contains b

/-- Whether a class of bytes has `b`. -/
def classHas (negated : Bool) (ranges : List (Char × Char)) (b : UInt8) : Bool :=
  (ranges.any fun range => rangeLists range b) != negated

mutual

/-- Whether all the parts of a pattern are lists of alternatives without anything in them. -/
def areEmpty : List GlobToken → Bool
  | [] => true
  | .alternatives branches :: rest => branchesEmpty branches && areEmpty rest
  | _ :: _ => false

/-- Whether nothing is in any of the alternatives. -/
def branchesEmpty : List (List GlobToken) → Bool
  | [] => true
  | branch :: rest => areEmpty branch && branchesEmpty rest

end

mutual

/-- Whether a part of a pattern stands for the bytes `s`. -/
def Accepts : GlobToken → List UInt8 → Prop
  | literal c, s => s = String.utf8EncodeChar c
  | anyByte, s => ∃ b, s = [b] ∧ b ≠ slash
  | anyName, s => slash ∉ s
  | leadingDirs, s => s = [] ∨ ∃ r, s = r ++ [slash]
  | innerDirs, s => s = [slash] ∨ ∃ r, s = slash :: r ++ [slash]
  | everythingBelow, s => ∃ r, s = slash :: r
  | oneOf negated ranges, s => ∃ b, s = [b] ∧ classHas negated ranges b
  | alternatives branches, s => SomeAccept branches s ∨ (branchesEmpty branches ∧ s = [])

/-- Whether one of the alternatives that are not empty stands for the bytes `s`. -/
def SomeAccept : List (List GlobToken) → List UInt8 → Prop
  | [], _ => False
  | branch :: rest, s => (areEmpty branch = false ∧ AllAccept branch s) ∨ SomeAccept rest s

/-- Whether the parts of a pattern, one after the other, stand for the bytes `s`. -/
def AllAccept : List GlobToken → List UInt8 → Prop
  | [], s => s = []
  | token :: rest, s => ∃ x y, s = x ++ y ∧ Accepts token x ∧ AllAccept rest y

end

end GlobToken

/-- A **glob pattern**: its parts. -/
structure GlobPattern where
  tokens : List GlobToken
  deriving Repr, Inhabited

/-- Whether the pattern describes a relative path. A pattern that is only `**` describes all. -/
def GlobPattern.Describes (p : GlobPattern) (path : Text) : Prop :=
  p.tokens = [.leadingDirs] ∨ GlobToken.AllAccept p.tokens path.bytes

end Stencil
