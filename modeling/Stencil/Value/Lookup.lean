import Stencil.Number.Digits
import Stencil.Value.Basic

/-!
# What templates ask of values

A path is text in which points separate segments: `site.nav.0.title`. Each segment goes from a value
to one inside it: a field of a mapping by its name, an item of a list by its position, counted from
zero in decimal. Where there is nothing inside, the rest of the path leads to `undefined`, so
looking up never fails. A condition then asks of what was found whether it is true.

* `lookup_append` — a path made of two paths is looked up one after the other.
-/

namespace Stencil.Value

/-! ### Paths -/

/-- The position that a segment names in a list: a decimal number of at most 64 bits, perhaps after
one plus sign. -/
def position? (segment : Text) : Option Nat :=
  (natural? segment).filter (· < wordCount)

/-- What one segment of a path leads to. -/
def child (v : Value) (segment : Text) : Value :=
  match v with
  | map fields => (Fields.get? segment fields).getD undefined
  | list items => ((position? segment).bind (items[·]?)).getD undefined
  | _ => undefined

/-- What the segments of a path lead to, one after the other. -/
def descend (v : Value) (segments : List Text) : Value :=
  segments.foldl child v

/-- What a path leads to. -/
def lookup (v : Value) (path : Text) : Value :=
  v.descend (path.pieces '.')

theorem lookup_append (v : Value) (p q : Text) :
    v.lookup (p ++ '.' :: q) = (v.lookup p).lookup q := by
  simp [lookup, descend, Text.pieces_append_cons]

/-! ### Conditions -/

/-- Whether a condition on the value holds. Nothing, `null`, `false`, zero, the number that is none,
the empty text and the empty list are false; everything else, every mapping too, is true. -/
def isTruthy : Value → Bool
  | undefined => false
  | null => false
  | bool b => b
  | unsigned n => n != 0
  | signed n => n != 0
  | float x => !x.isZero && x != .nan
  | text t => !t.isEmpty
  | list items => !items.isEmpty
  | map _ => true

/-- Whether a value was found at all. -/
def isDefined : Value → Bool
  | undefined => false
  | _ => true

end Stencil.Value
