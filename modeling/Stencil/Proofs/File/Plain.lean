import Stencil.Proofs.File.Confined
import Stencil.Proofs.File.Tree

/-!
# Plain file systems

Where there are no links, and no name or path that is too long for the system, what is at a place
can be looked up by the path to that place, and each place has only this one path without detours.

* `FileSystem.Plain` — the file systems that are so. The names in them have no backslashes, which
  would be taken for slashes where a path is compared with a pattern;
* `Node.resolveSteps_map_down` — steps down the names of a place lead there;
* `FileSystem.Plain.find_pathTo` — so the path to a place leads to what is there.
-/

namespace Stencil

/-! ### Going down -/

namespace Node

theorem entriesAt?_of_at? {root : Node} {place : Place} {entries : List (Text × Node)}
    (h : root.at? place = some (.directory entries)) : root.entriesAt? place = some entries := by
  rw [entriesAt?, h]
  rfl

/-- **Steps down the names of a place lead there**, if there are no links. -/
theorem resolveSteps_map_down {root : Node} (hlinks : root.LinkFree) {here : Place}
    {names : List Text} {n : Node} (h : root.at? (here ++ names) = some n)
    (hsize : ∀ name ∈ names, name.size ≤ maxNameSize) (followLast : Bool) (links : Nat) :
    root.resolveSteps followLast links here (names.map .down)
      = .ok (.present (here ++ names)) := by
  induction names generalizing here with
  | nil => rw [List.map_nil, resolveSteps, List.append_nil]
  | cons name names ih =>
    obtain ⟨hname, hnames⟩ := List.forall_mem_cons.1 hsize
    have hfurther : here ++ name :: names = here ++ [name] ++ names := by
      rw [List.append_assoc, List.singleton_append]
    have hat := h
    rw [at?_append] at hat
    obtain ⟨m, hm, hrest⟩ := Option.bind_eq_some_iff.1 hat
    obtain ⟨child, hchild, -⟩ := Option.bind_eq_some_iff.1 hrest
    -- the place goes on inside what the first name leads to, so that is a directory
    rw [hfurther] at h ⊢
    cases m with
    | file content => cases hchild
    | link target => cases hchild
    | directory entries =>
      have hfind : NameMap.find? name entries = some child := hchild
      have hnode : child.LinkFree :=
        linkFree_directory_iff.1 (linkFree_of_at? hlinks hm) _ (NameMap.mem_of_find? hfind)
      rw [List.map_cons, resolveSteps, entriesAt?_of_at? hm]
      simp only [if_neg (Nat.not_lt.2 hname), hfind]
      cases child with
      | file content => exact ih h hnames
      | directory entries => exact ih h hnames
      | link target =>
        rw [LinkFree] at hnode
        exact hnode.elim

end Node

/-! ### Paths to places -/

theorem Text.unpieces_cons (sep : Char) (piece : Text) (pieces : List Text) :
    Text.unpieces sep (piece :: pieces) = piece ++ pieces.flatMap (sep :: ·) := by
  induction pieces generalizing piece with
  | nil => exact (List.append_nil piece).symm
  | cons next pieces ih => rw [Text.unpieces, ih, List.flatMap_cons, List.cons_append]

namespace FilePath

/-- What a path ends in is no slash if it ends in a name. -/
theorem getLast?_append_ne {name : Text} (h : Node.IsName name) (p : FilePath) :
    List.getLast? (p ++ name) ≠ some '/' := by
  rw [List.getLast?_append, List.getLast?_eq_some_getLast h.1, Option.some_or]
  exact fun hlast => h.2.2.2 (Option.some.inj hlast ▸ List.getLast_mem h.1)

theorem join_of_isName {p : FilePath} (hp : p ≠ []) (hend : p.getLast? ≠ some '/') {name : Text}
    (h : Node.IsName name) : p.join name = p ++ '/' :: name := by
  have hp' : p.isEmpty = false := List.isEmpty_eq_false_iff.2 hp
  rw [join, isAbsolute_of_isName h, if_neg Bool.false_ne_true, hp', Bool.false_or,
    if_neg (mt of_decide_eq_true hend)]

theorem joinNames_eq {p : FilePath} (hp : p ≠ []) (hend : p.getLast? ≠ some '/')
    {names : List Text} (h : ∀ name ∈ names, Node.IsName name) :
    p.joinNames names = p ++ names.flatMap ('/' :: ·) := by
  induction names generalizing p with
  | nil => exact (List.append_nil p).symm
  | cons name names ih =>
    obtain ⟨hname, hnames⟩ := List.forall_mem_cons.1 h
    -- no name ends in a slash, so each is joined with one
    have hlonger : (p ++ '/' :: name).getLast? ≠ some '/' := by
      rw [List.append_cons]
      exact getLast?_append_ne hname _
    change (p.join name).joinNames names = _
    rw [join_of_isName hp hend hname,
      ih (List.append_ne_nil_of_left_ne_nil hp _) hlonger hnames, List.flatMap_cons,
      List.append_assoc]

end FilePath

namespace FileSystem

/-- **The path to a place** in full: a slash, and the names with slashes in between. -/
theorem pathTo_eq {names : List Text} (h : ∀ name ∈ names, Node.IsName name) :
    pathTo names = '/' :: Text.unpieces '/' names := by
  cases names with
  | nil => rfl
  | cons name names =>
    obtain ⟨hname, hnames⟩ := List.forall_mem_cons.1 h
    have hfirst : FilePath.join ['/'] name = '/' :: name := by
      rw [FilePath.join, FilePath.isAbsolute_of_isName hname]
      rfl
    have hend : List.getLast? ('/' :: name) ≠ some '/' :=
      FilePath.getLast?_append_ne hname ['/']
    change (FilePath.join ['/'] name).joinNames names = _
    rw [hfirst, FilePath.joinNames_eq (List.cons_ne_nil _ _) hend hnames, Text.unpieces_cons]
    rfl

/-- The steps of the path to a place. Behind the topmost directory, its slash stands for a step to
nowhere, and so does the empty rest of the path where no name follows. -/
theorem steps_pathTo {names : List Text} (h : ∀ name ∈ names, Node.IsName name) :
    FilePath.steps (pathTo names) = .top :: .stay :: names.map .down ∨
      names = [] ∧ FilePath.steps (pathTo names) = [.top, .stay, .stay] := by
  rw [pathTo_eq h]
  by_cases hnil : names = []
  · subst hnil
    exact .inr ⟨rfl, rfl⟩
  · left
    have hslash : ∀ name ∈ names, '/' ∉ name := fun name hname => (h name hname).2.2.2
    -- a proper name is a step down
    have hdown : names.map FilePath.stepOf = names.map .down := by
      refine List.map_congr_left fun name hname => ?_
      obtain ⟨hempty, hdot, hdots, -⟩ := h name hname
      rw [FilePath.stepOf, if_neg (not_or.2 ⟨hempty, hdot⟩), if_neg hdots]
    rw [FilePath.steps, Text.pieces, if_pos rfl, Text.pieces_unpieces hnil hslash, List.map_cons,
      hdown]
    rfl

/-! ### Plain file systems -/

/-- Whether a file system **is plain**: there are no links in it, every place has a name and a path
that the system takes, and no name has a backslash. -/
structure Plain (fs : FileSystem) : Prop where
  wellFormed : fs.root.WellFormed
  linkFree : fs.root.LinkFree
  isDirectory : fs.root.isDirectory
  names : ∀ place n, fs.root.at? place = some n →
    ∀ name ∈ place, name.size ≤ maxNameSize ∧ '\x00' ∉ name ∧ '\\' ∉ name
  paths : ∀ place n, fs.root.at? place = some n → (pathTo place).size ≤ maxPathSize

namespace Plain

variable {fs : FileSystem} (hfs : fs.Plain)
include hfs

/-- **The path to a place leads there.** -/
theorem find_pathTo {place : Place} {n : Node} (h : fs.root.at? place = some n) :
    fs.find (pathTo place) = .ok (place, n) := by
  obtain ⟨hplace, -⟩ := Node.wellFormed_of_at? hfs.wellFormed h
  have hnul : (pathTo place).contains '\x00' = false := by
    rw [pathTo_eq hplace, List.contains_eq_mem, decide_eq_false_iff_not, List.mem_cons, not_or]
    exact ⟨by decide,
      FilePath.notMem_unpieces (by decide) fun name hname => (hfs.names _ _ h name hname).2.1⟩
  have hne : (pathTo place).isEmpty = false := by
    rw [pathTo_eq hplace]
    rfl
  obtain ⟨entries, hroot⟩ : ∃ entries, fs.root = .directory entries := by
    have hdirectory := hfs.isDirectory
    cases hroot : fs.root with
    | directory entries => exact ⟨entries, rfl⟩
    | file content => rw [hroot] at hdirectory; cases hdirectory
    | link target => rw [hroot] at hdirectory; cases hdirectory
  have htop : (fs.root.entriesAt? []).isSome := by
    have hat : fs.root.at? [] = some (.directory entries) := congrArg some hroot
    rw [Node.entriesAt?_of_at? hat]
    rfl
  have hat : fs.root.at? ([] ++ place) = some n := h
  have hsteps : fs.root.resolveSteps true maxLinks fs.workingDirectory (pathTo place).steps
      = .ok (.present place) := by
    -- the path goes to the top first, and then down all names; to the top there are none
    rcases steps_pathTo hplace with hsteps | ⟨rfl, hsteps⟩
    · rw [hsteps, Node.resolveSteps, Node.resolveSteps, if_pos htop]
      exact Node.resolveSteps_map_down hfs.linkFree hat
        (fun name hname => (hfs.names _ _ h name hname).1) true maxLinks
    · rw [hsteps, Node.resolveSteps, Node.resolveSteps, if_pos htop, Node.resolveSteps, if_pos htop,
        Node.resolveSteps]
  have hresolve : fs.resolve true (pathTo place) = .ok (.present place) := by
    rw [resolve, hnul, hne, if_neg Bool.false_ne_true, if_neg Bool.false_ne_true,
      if_neg (Nat.not_lt.2 (hfs.paths _ _ h)), hsteps]
  simp only [find, hresolve, h]

end Plain

end FileSystem

/-! ### Going through all places -/

namespace Node

mutual

/-- The places of all nodes at and below a node. -/
def places : Node → List Place
  | .directory entries => [] :: entriesPlaces entries
  | _ => [[]]

/-- The places of some entries and of what is below them. -/
def entriesPlaces : List (Text × Node) → List Place
  | [] => []
  | (name, node) :: rest => (places node).map (name :: ·) ++ entriesPlaces rest

end

theorem mem_entriesPlaces {entries : List (Text × Node)} {name : Text} {n : Node}
    (h : (name, n) ∈ entries) {place : Place} (hplace : place ∈ n.places) :
    name :: place ∈ entriesPlaces entries := by
  induction entries with
  | nil => cases h
  | cons e entries ih =>
    rw [entriesPlaces, List.mem_append]
    rcases List.mem_cons.1 h with rfl | h
    · exact .inl (List.mem_map_of_mem hplace)
    · exact .inr (ih h)

theorem mem_places_of_at? {n m : Node} {place : Place} (h : n.at? place = some m) :
    place ∈ n.places := by
  induction place generalizing n with
  | nil =>
    cases n with
    | file content => exact List.mem_singleton_self _
    | link target => exact List.mem_singleton_self _
    | directory entries =>
      rw [places]
      exact List.mem_cons_self
  | cons name place ih =>
    -- only a directory has something below it
    obtain ⟨child, hchild, hrest⟩ := Option.bind_eq_some_iff.1 h
    cases n with
    | file content => cases hchild
    | link target => cases hchild
    | directory entries =>
      rw [places]
      exact List.mem_cons_of_mem _ (mem_entriesPlaces (NameMap.mem_of_find? hchild) (ih hrest))

end Node

/-- It is enough to go through the places of the tree to see that a file system is plain. -/
theorem FileSystem.plain_of_places {fs : FileSystem} (hwell : fs.root.WellFormed)
    (hlinks : fs.root.LinkFree) (hdirectory : fs.root.isDirectory)
    (h : ∀ place ∈ fs.root.places,
      (∀ name ∈ place, name.size ≤ maxNameSize ∧ '\x00' ∉ name ∧ '\\' ∉ name) ∧
        (pathTo place).size ≤ maxPathSize) : fs.Plain where
  wellFormed := hwell
  linkFree := hlinks
  isDirectory := hdirectory
  names _ _ hat := (h _ (Node.mem_places_of_at? hat)).1
  paths _ _ hat := (h _ (Node.mem_places_of_at? hat)).2

end Stencil
