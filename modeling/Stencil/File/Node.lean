import Stencil.File.Path
import Stencil.NameMap

/-!
# Trees of files

A node of a file tree is a file with its bytes, a link with the path it leads to, or a directory
with its entries. The entries of a directory stand in the order of their names, so a walk meets them
in that order. The place of a node is the list of the names that lead down to it.

* `Node.at?_put` — what was put at a place is found there;
* `Node.WellFormed` — the trees in which every directory has its entries in order, under names that
  a path can hold.
-/

namespace Stencil

/-- A **node of a file tree**. -/
inductive Node where
  | file (content : ByteArray)
  | link (target : FilePath)
  | directory (entries : List (Text × Node))
  deriving Inhabited

/-- The place of a node: the names that lead down to it. -/
abbrev Place := List Text

namespace Node

/-- The directory without entries. -/
def emptyDirectory : Node := .directory []

/-- Whether a node is a directory. -/
def isDirectory : Node → Bool
  | .directory _ => true
  | _ => false

/-- Whether a node is a file. -/
def isFile : Node → Bool
  | .file _ => true
  | _ => false

/-- The entries of a directory. -/
def entries? : Node → Option (List (Text × Node))
  | .directory entries => some entries
  | _ => none

/-- The entry of that name. -/
def child? (n : Node) (name : Text) : Option Node :=
  n.entries?.bind (NameMap.find? name)

/-- The node at a place below `n`. -/
def at? : Node → Place → Option Node
  | n, [] => some n
  | n, name :: place => (n.child? name).bind fun child => child.at? place

/-- The entries of the directory at a place below `n`. -/
def entriesAt? (n : Node) (place : Place) : Option (List (Text × Node)) :=
  (n.at? place).bind entries?

/-- The directory with `new` under `name`, instead of what was there. -/
def setChild (n : Node) (name : Text) (new : Node) : Node :=
  match n with
  | .directory entries => .directory (NameMap.insertEntry name new entries)
  | n => n

/-- The tree in which `new` is at a place, whatever was there. If the place is in no directory of
the tree, the tree stays as it is. -/
def put : Node → Place → Node → Node
  | _, [], new => new
  | n, name :: place, new =>
    match n.child? name with
    | some child => n.setChild name (child.put place new)
    | none => if place = [] then n.setChild name new else n

/-- The directory without an entry of that name. -/
def eraseChild (n : Node) (name : Text) : Node :=
  match n with
  | .directory entries => .directory (entries.filter (·.1 ≠ name))
  | n => n

/-- The tree in which nothing is at a place below it. -/
def erase : Node → Place → Node
  | n, [] => n
  | n, name :: place =>
    if place = [] then n.eraseChild name
    else
      match n.child? name with
      | some child => n.setChild name (child.erase place)
      | none => n

/-- Whether a node can have that name: it is not empty, has no slash, and is no step of a path. -/
def IsName (name : Text) : Prop :=
  name ≠ [] ∧ name ≠ ['.'] ∧ name ≠ ['.', '.'] ∧ '/' ∉ name

instance (name : Text) : Decidable (IsName name) :=
  inferInstanceAs (Decidable (_ ∧ _))

mutual

/-- The entries of every directory have names that a path can hold, in rising order. -/
def WellFormed : Node → Prop
  | .file _ => True
  | .link _ => True
  | .directory entries => entries.Pairwise (·.1 < ·.1) ∧ EntriesWellFormed entries

/-- The entries of a directory have names that a path can hold, and are well-formed. -/
def EntriesWellFormed : List (Text × Node) → Prop
  | [] => True
  | (name, node) :: rest => IsName name ∧ WellFormed node ∧ EntriesWellFormed rest

end

mutual

/-- No node of the tree is a link. -/
def LinkFree : Node → Prop
  | .file _ => True
  | .link _ => False
  | .directory entries => EntriesLinkFree entries

/-- No node among the entries of a directory or below is a link. -/
def EntriesLinkFree : List (Text × Node) → Prop
  | [] => True
  | (_, node) :: rest => LinkFree node ∧ EntriesLinkFree rest

end

theorem child?_setChild {n : Node} (h : n.isDirectory) (name other : Text) (new : Node) :
    (n.setChild name new).child? other = if other = name then some new else n.child? other := by
  cases n with
  | directory entries => exact NameMap.find?_insertEntry name other new entries
  | file content => cases h
  | link target => cases h

theorem isDirectory_of_child? {n child : Node} {name : Text} (h : n.child? name = some child) :
    n.isDirectory := by
  cases n with
  | directory entries => rfl
  | file content => cases h
  | link target => cases h

/-- What is put into a directory of the tree is found there. -/
theorem at?_put {n new directory : Node} {place : Place} {name : Text}
    (h : n.at? place = some directory) (hdir : directory.isDirectory) :
    (n.put (place ++ [name]) new).at? (place ++ [name]) = some new := by
  -- along the path, down to the directory that gets the child
  induction place generalizing n with
  | nil =>
    obtain rfl := Option.some.inj h
    simp only [List.nil_append, put]
    split <;> simp [at?, child?_setChild hdir]
  | cons first place ih =>
    obtain ⟨child, hchild, h⟩ := Option.bind_eq_some_iff.1 h
    simp only [List.cons_append, put, hchild, at?, child?_setChild (isDirectory_of_child? hchild),
      if_true, Option.bind_some]
    exact ih h

end Node

end Stencil
