import Stencil.Context

/-!
# Scopes

A scope is what names stand for at one point of a render. At the root these are the bindings of the
page, then the global ones. Each round of an `each` block adds a scope that binds four names, the
item and its position, and leaves all others to the scope around it; nothing is copied.

* `get_iteration_of_ne` — the names that a round does not bind mean what they meant before it.
-/

namespace Stencil

/-- A **scope**. -/
inductive Scope where
  /-- The names of a page, and the global ones, which they hide. -/
  | root (page globals : Context)
  /-- One round over a list: the item, its position, and how many items there are. -/
  | iteration (outer : Scope) (item : Value) (index count : Nat)
  deriving Repr

namespace Scope

/-- The name of the item of the innermost round. -/
def thisName : Text := ['t', 'h', 'i', 's']

/-- The name of the position of the item, counted from zero. -/
def indexName : Text := ['@', 'i', 'n', 'd', 'e', 'x']

/-- The name that says whether the item is the first one. -/
def firstName : Text := ['@', 'f', 'i', 'r', 's', 't']

/-- The name that says whether the item is the last one. -/
def lastName : Text := ['@', 'l', 'a', 's', 't']

/-- What one round binds. -/
def bound? (item : Value) (index count : Nat) (name : Text) : Option Value :=
  if name = thisName then some item
  else if name = indexName then some (.unsigned (UInt64.ofNat index))
  else if name = firstName then some (.bool (index = 0))
  else if name = lastName then some (.bool (index + 1 = count))
  else none

/-- What a name stands for; `undefined` if it stands for nothing. -/
def get : Scope → Text → Value
  | root page globals, name => ((page.get? name).or (globals.get? name)).getD .undefined
  | iteration outer item index count, name => (bound? item index count name).getD (outer.get name)

/-- What a path leads to, from the name that its first segment is. -/
def lookup (s : Scope) (path : Text) : Value :=
  match path.pieces '.' with
  | [] => .undefined
  | first :: rest => (s.get first).descend rest

theorem get_iteration_of_ne {outer : Scope} {item : Value} {index count : Nat} {name : Text}
    (hthis : name ≠ thisName) (hindex : name ≠ indexName) (hfirst : name ≠ firstName)
    (hlast : name ≠ lastName) : (iteration outer item index count).get name = outer.get name := by
  simp [get, bound?, hthis, hindex, hfirst, hlast]

end Scope

end Stencil
