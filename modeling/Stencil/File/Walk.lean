import Stencil.File.Basic

/-!
# Walks

A walk visits everything below a directory: the entries of each directory in the order of their
names, and right behind a directory what is in it. Links are followed, wherever they lead; a link
that leads nowhere, or back to a directory that the walk is in, is reported as a fault and left.

A walk looks up the whole path from where it began, so it gets no deeper than paths can lead:
through no more links than one path may lead through, and behind them through no longer path than
there can be.
-/

namespace Stencil

/-- Why a walk did not go on at an entry. -/
inductive WalkFault where
  /-- The link could not be followed. -/
  | io (fault : IoFault)
  /-- The link leads to a directory that the walk is in. -/
  | loop
  deriving DecidableEq, Repr

/-- What a walk meets, with the names that lead to it from where the walk began. -/
inductive Visit where
  | directory (names : List Text)
  /-- A directory that cannot be opened. -/
  | barred (names : List Text) (fault : IoFault)
  | file (names : List Text)
  | fault (names : List Text) (fault : WalkFault)
  deriving DecidableEq, Repr

/-- Where a walk is: inside which directories, at which place, and by which names it came there. -/
structure Whereabouts where
  /-- The directories that the walk is in, the innermost one first. -/
  inside : List Place
  place : Place
  names : List Text

/-- One level further down. -/
def Whereabouts.down (w : Whereabouts) (name : Text) : Whereabouts :=
  ⟨(w.place ++ [name]) :: w.inside, w.place ++ [name], w.names ++ [name]⟩

/-- What decides how a walk goes on. -/
structure Guide where
  /-- What the walk meets at the link of that name where it is, and below it. -/
  follow : Whereabouts → Text → List Visit
  /-- Why the directory that some names lead to cannot be opened, if it cannot. -/
  bar? : List Text → Option IoFault

namespace Node

mutual

/-- What a walk meets at an entry of a directory and below it. -/
def visit (guide : Guide) (w : Whereabouts) (name : Text) : Node → List Visit
  | .file _ => [.file (w.names ++ [name])]
  | .link _ => guide.follow w name
  | .directory entries =>
    let names := w.names ++ [name]
    match guide.bar? names with
    | some fault => [.barred names fault]
    | none => .directory names :: visitEntries guide (w.down name) entries

/-- What a walk meets at the entries of a directory and below them. -/
def visitEntries (guide : Guide) (w : Whereabouts) : List (Text × Node) → List Visit
  | [] => []
  | (name, node) :: rest => visit guide w name node ++ visitEntries guide w rest

end

end Node

namespace FileSystem

/-- Why some names below `p` lead nowhere, if they do. -/
def bar? (fs : FileSystem) (p : FilePath) (names : List Text) : Option IoFault :=
  match fs.find (p.joinNames names) with
  | .ok _ => none
  | .error e => some e

/-- What a walk from `p` meets at the link `name` where it is, and below it, when it may still
follow `depth` links one inside the other. Each of them is a link on the path to the next one. -/
def followLink (fs : FileSystem) (p : FilePath) : Nat → Whereabouts → Text → List Visit
  | depth, w, name =>
    let names := w.names ++ [name]
    match fs.find (p.joinNames names), depth with
    | .error e, _ => [.fault names (.io e)]
    | .ok (place, .directory entries), depth + 1 =>
      if place ∈ w.inside then [.fault names .loop]
      else
        let guide : Guide := ⟨fs.followLink p depth, fs.bar? p⟩
        .directory names :: Node.visitEntries guide ⟨place :: w.inside, place, names⟩ entries
    | .ok (_, .directory _), 0 => [.fault names (.io .tooManyLinks)]
    | .ok _, _ => [.file names]

/-- What a walk through the directory that a path leads to meets. Only behind links a directory may
be barred. -/
def walk (fs : FileSystem) (p : FilePath) : List Visit :=
  match fs.find p with
  | .ok (place, .directory entries) =>
    Node.visitEntries ⟨fs.followLink p maxLinks, fun _ => none⟩ ⟨[place], place, []⟩ entries
  | _ => []

end FileSystem

end Stencil
