import Stencil.File.Change
import Stencil.File.Walk
import Stencil.Proofs.File.Spot

/-!
# Well-formed trees

In a well-formed tree every directory has its entries in order, under names that a path can hold. A
path leads down by such names only, so this stays so whatever is changed by path, and the names that
a walk comes by are of that kind:

* `Node.wellFormed_put` — what is put into a tree under proper names keeps it well-formed;
* `FileSystem.isName_of_resolve` — the name that a path ends in where nothing is yet is proper;
* `FileSystem.wellFormed_write`, `wellFormed_copy`, `wellFormed_makeDirectories` — so changes keep
  the tree well-formed, whether or not they succeed;
* `FileSystem.isProper_of_mem_walk` — a walk comes by proper names.
-/

namespace Stencil

/-! ### Trees -/

namespace Node

theorem entriesWellFormed_iff {entries : List (Text × Node)} :
    EntriesWellFormed entries ↔ ∀ e ∈ entries, IsName e.1 ∧ e.2.WellFormed := by
  induction entries with
  | nil =>
    rw [EntriesWellFormed]
    exact iff_of_true trivial nofun
  | cons e entries ih =>
    obtain ⟨name, node⟩ := e
    rw [EntriesWellFormed, ih, List.forall_mem_cons, and_assoc]

theorem wellFormed_directory_iff {entries : List (Text × Node)} :
    (directory entries).WellFormed ↔
      entries.Pairwise (·.1 < ·.1) ∧ ∀ e ∈ entries, IsName e.1 ∧ e.2.WellFormed := by
  rw [WellFormed, entriesWellFormed_iff]

mutual

/-- Whether a tree is well-formed, by going through it. -/
def decideWellFormed : (n : Node) → Decidable (WellFormed n)
  | .file _ => isTrue trivial
  | .link _ => isTrue trivial
  | .directory entries =>
    have := decideEntriesWellFormed entries
    inferInstanceAs (Decidable (_ ∧ EntriesWellFormed entries))

/-- Whether some entries are well-formed, by going through them. -/
def decideEntriesWellFormed :
    (entries : List (Text × Node)) → Decidable (EntriesWellFormed entries)
  | [] => isTrue trivial
  | (name, node) :: rest =>
    have := decideWellFormed node
    have := decideEntriesWellFormed rest
    inferInstanceAs (Decidable (IsName name ∧ WellFormed node ∧ EntriesWellFormed rest))

end

instance (n : Node) : Decidable n.WellFormed := decideWellFormed n

/-- The entries of a well-formed directory are well-formed, and so are their names. -/
theorem wellFormed_of_child? {n child : Node} {name : Text} (h : n.WellFormed)
    (hchild : n.child? name = some child) : IsName name ∧ child.WellFormed := by
  cases n with
  | file content => cases hchild
  | link target => cases hchild
  | directory entries =>
    exact (wellFormed_directory_iff.1 h).2 (name, child) (NameMap.mem_of_find? hchild)

/-- What stands at a place of a well-formed tree is well-formed, and so are the names of the
place. -/
theorem wellFormed_of_at? {n m : Node} {place : Place} (h : n.WellFormed)
    (hm : n.at? place = some m) : (∀ name ∈ place, IsName name) ∧ m.WellFormed := by
  induction place generalizing n with
  | nil =>
    obtain rfl := Option.some.inj hm
    exact ⟨nofun, h⟩
  | cons name place ih =>
    obtain ⟨child, hchild, hm⟩ := Option.bind_eq_some_iff.1 hm
    obtain ⟨hname, hwell⟩ := wellFormed_of_child? h hchild
    obtain ⟨hplace, hmwell⟩ := ih hwell hm
    exact ⟨List.forall_mem_cons.2 ⟨hname, hplace⟩, hmwell⟩

theorem wellFormed_of_entriesAt? {n : Node} {place : Place} {entries : List (Text × Node)}
    (h : n.WellFormed) (hentries : n.entriesAt? place = some entries) :
    (∀ name ∈ place, IsName name) ∧ (directory entries).WellFormed := by
  obtain ⟨m, hm, hentries⟩ := Option.bind_eq_some_iff.1 hentries
  obtain ⟨hplace, hwell⟩ := wellFormed_of_at? h hm
  cases m with
  | file content => cases hentries
  | link target => cases hentries
  | directory entries' =>
    obtain rfl := Option.some.inj hentries
    exact ⟨hplace, hwell⟩

theorem wellFormed_setChild {n new : Node} {name : Text} (h : n.WellFormed) (hname : IsName name)
    (hnew : new.WellFormed) : (n.setChild name new).WellFormed := by
  cases n with
  | file content => exact h
  | link target => exact h
  | directory entries =>
    obtain ⟨hordered, hentries⟩ := wellFormed_directory_iff.1 h
    refine wellFormed_directory_iff.2 ⟨NameMap.ordered_insertEntry name new hordered, ?_⟩
    intro e he
    rcases NameMap.mem_insertEntry he with rfl | he
    · exact ⟨hname, hnew⟩
    · exact hentries e he

/-- **Putting a node into a tree** under proper names keeps the tree well-formed. -/
theorem wellFormed_put {n new : Node} {place : Place} (h : n.WellFormed)
    (hplace : ∀ name ∈ place, IsName name) (hnew : new.WellFormed) :
    (n.put place new).WellFormed := by
  induction place generalizing n with
  | nil => exact hnew
  | cons name place ih =>
    obtain ⟨hname, hplace⟩ := List.forall_mem_cons.1 hplace
    rw [put]
    split
    · next child hchild =>
      exact wellFormed_setChild h hname (ih (wellFormed_of_child? h hchild).2 hplace)
    · split
      · exact wellFormed_setChild h hname hnew
      · exact h

/-! ### Paths -/

/-- Where nothing is yet, steps that go down by proper names lead to a proper name in a directory of
the tree. Links do not matter, because they too hold paths. -/
theorem isName_of_resolveSteps {root : Node} {followLast : Bool} {links : Nat} {here : Place}
    {steps : List Step} {place : Place} {name : Text} {asDirectory : Bool}
    (hsteps : ∀ other, .down other ∈ steps → IsName other)
    (h : root.resolveSteps followLast links here steps = .ok (.vacant place name asDirectory)) :
    IsName name ∧ (root.entriesAt? place).isSome := by
  have rest {x : Step} {others : List Step} (hall : ∀ other, .down other ∈ x :: others →
      IsName other) : ∀ other, .down other ∈ others → IsName other :=
    fun other hother => hall other (List.mem_cons_of_mem _ hother)
  fun_induction Node.resolveSteps root followLast links here steps with
  | case1 => cases h
  | case2 links here others ih => exact ih (rest hsteps) h
  | case3 links here others hdir ih => exact ih (rest hsteps) h
  | case4 => cases h
  | case5 links here others hdir ih => exact ih (rest hsteps) h
  | case6 => cases h
  | case7 => cases h
  | case8 => cases h
  | case9 links here other others entries hentries =>
    -- the steps end at a name that is free
    obtain ⟨rfl, rfl, -⟩ := Resolved.vacant.inj (Except.ok.inj h)
    exact ⟨hsteps other List.mem_cons_self, by rw [hentries]; rfl⟩
  | case10 => cases h
  | case11 => cases h
  | case12 => cases h
  | case13 here other others entries hentries hsize target hfind hfollow links ih =>
    -- the steps of a link go down to names as those of every path do
    refine ih (fun name hname => ?_) h
    rcases List.mem_append.1 hname with hname | hname
    · exact FilePath.isName_of_down_mem_steps hname
    · exact rest hsteps name hname
  | case14 links here other others entries hentries hsize node hlink hfind ih =>
    exact ih (rest hsteps) h

end Node

/-! ### Changes -/

namespace FileSystem

variable {fs fs' : FileSystem} {p : FilePath}

/-- The name that a path ends in where nothing is yet is a proper one. -/
theorem isName_of_resolve {followLast : Bool} {place : Place} {name : Text} {asDirectory : Bool}
    (h : fs.resolve followLast p = .ok (.vacant place name asDirectory)) :
    Node.IsName name ∧ (fs.root.entriesAt? place).isSome := by
  unfold resolve at h
  split at h
  · cases h
  · split at h
    · cases h
    · split at h
      · cases h
      · exact Node.isName_of_resolveSteps (fun _ => FilePath.isName_of_down_mem_steps) h

/-- So what is made there keeps the tree well-formed. -/
theorem wellFormed_put_vacant (hfs : fs.root.WellFormed) {followLast : Bool} {place : Place}
    {name : Text} {asDirectory : Bool}
    (h : fs.resolve followLast p = .ok (.vacant place name asDirectory)) {new : Node}
    (hnew : new.WellFormed) : (fs.put (place ++ [name]) new).root.WellFormed := by
  obtain ⟨hname, hentries⟩ := isName_of_resolve h
  obtain ⟨entries, hentries⟩ := Option.isSome_iff_exists.1 hentries
  obtain ⟨hplace, -⟩ := Node.wellFormed_of_entriesAt? hfs hentries
  refine Node.wellFormed_put hfs (fun other hother => ?_) hnew
  rcases List.mem_append.1 hother with hother | hother
  · exact hplace other hother
  · exact List.mem_singleton.1 hother ▸ hname

theorem wellFormed_write (hfs : fs.root.WellFormed) {content : ByteArray}
    (h : fs.write p content = .ok fs') : fs'.root.WellFormed := by
  have hfile : (Node.file content).WellFormed := by
    rw [Node.WellFormed]
    trivial
  unfold write at h
  split at h
  · cases h
  · next hresolve =>
    -- a file is new, or takes the place of a file
    split at h
    · cases h
    · obtain rfl := Except.ok.inj h
      exact wellFormed_put_vacant hfs hresolve hfile
  · split at h
    · next hold =>
      obtain rfl := Except.ok.inj h
      exact Node.wellFormed_put hfs (Node.wellFormed_of_at? hfs hold).1 hfile
    · cases h

theorem wellFormed_copy (hfs : fs.root.WellFormed) {source target : FilePath}
    (h : fs.copy source target = .ok fs') : fs'.root.WellFormed := by
  unfold copy at h
  split at h
  · cases h
  · split at h
    · cases h
    · next emptied hemptied =>
      -- the target is emptied before the source is read, and stays so if that fails
      have hwell := wellFormed_write hfs hemptied
      split at h
      · exact wellFormed_write hwell h
      · obtain rfl := Except.ok.inj h
        exact hwell
  · cases h

theorem wellFormed_makeDirectory (hfs : fs.root.WellFormed) (h : fs.makeDirectory p = .ok fs') :
    fs'.root.WellFormed := by
  have hempty : Node.emptyDirectory.WellFormed :=
    Node.wellFormed_directory_iff.2 ⟨.nil, nofun⟩
  unfold makeDirectory at h
  split at h
  · cases h
  · split at h
    · cases h
    · cases h
    -- the directory is made under a name that was free
    · next hresolve =>
      split at h
      · cases h
      · obtain rfl := Except.ok.inj h
        exact wellFormed_put_vacant hfs hresolve hempty

/-- Making directories keeps the tree well-formed, also if only some of them could be made. -/
theorem wellFormed_makeDirectories (hfs : fs.root.WellFormed) (p : FilePath) :
    (fs.makeDirectories p).1.root.WellFormed := by
  fun_induction FileSystem.makeDirectories fs p with
  | case1 => exact hfs
  | case2 p hp made hmade => exact wellFormed_makeDirectory hfs hmade
  | case3 => exact hfs
  -- the directories in front have been made, or some of them
  | case4 p hp hfound parent hparent made e hmade ih =>
    rw [hmade] at ih
    exact ih
  | case5 p hp hfound parent hparent made hmade all hall ih =>
    rw [hmade] at ih
    exact wellFormed_makeDirectory ih hall
  | case6 p hp hfound parent hparent made hmade e he ih =>
    rw [hmade] at ih
    exact ih
  | case7 => exact hfs

/-- What a path leads to is what stands at its place. -/
theorem at?_of_find {place : Place} {n : Node} (h : fs.find p = .ok (place, n)) :
    fs.root.at? place = some n := by
  unfold find at h
  split at h
  · split at h
    · next hat =>
      obtain ⟨rfl, rfl⟩ := Prod.mk.inj (Except.ok.inj h)
      exact hat
    · cases h
  · cases h
  · cases h

/-- What a path leads to is well-formed. -/
theorem wellFormed_of_find (hfs : fs.root.WellFormed) {place : Place} {n : Node}
    (h : fs.find p = .ok (place, n)) : n.WellFormed :=
  (Node.wellFormed_of_at? hfs (at?_of_find h)).2

end FileSystem

/-! ### Walks -/

/-- The names that lead to what a walk met. -/
def Visit.names : Visit → List Text
  | .directory names => names
  | .barred names _ => names
  | .file names => names
  | .fault names _ => names

/-- Whether what a walk met is below where it began, by **proper names**. -/
def Visit.IsProper (v : Visit) : Prop :=
  v.names ≠ [] ∧ ∀ name ∈ v.names, Node.IsName name

theorem Visit.isProper_append {v : Visit} {names : List Text} {name : Text}
    (h : v.names = names ++ [name]) (hnames : ∀ other ∈ names, Node.IsName other)
    (hname : Node.IsName name) : v.IsProper := by
  rw [IsProper, h]
  refine ⟨List.append_ne_nil_of_right_ne_nil _ (List.cons_ne_nil _ _), fun other hother => ?_⟩
  rcases List.mem_append.1 hother with hother | hother
  · exact hnames other hother
  · exact List.mem_singleton.1 hother ▸ hname

/-- Whether a guide goes on by proper names from places that it came to by such. -/
def Guide.IsProper (guide : Guide) : Prop :=
  ∀ (w : Whereabouts) (name : Text), (∀ other ∈ w.names, Node.IsName other) → Node.IsName name →
    ∀ v ∈ guide.follow w name, v.IsProper

namespace Node

mutual

theorem isProper_of_mem_visit {guide : Guide} (hguide : guide.IsProper) {w : Whereabouts}
    (hw : ∀ other ∈ w.names, IsName other) {name : Text} (hname : IsName name) (n : Node)
    (hn : n.WellFormed) {v : Visit} (h : v ∈ n.visit guide w name) : v.IsProper := by
  cases n with
  | file content =>
    rw [visit, List.mem_singleton] at h
    subst h
    exact Visit.isProper_append rfl hw hname
  | link target =>
    -- the guide says what there is behind a link
    rw [visit] at h
    exact hguide w name hw hname v h
  | directory entries =>
    rw [visit] at h
    split at h
    · rw [List.mem_singleton] at h
      subst h
      exact Visit.isProper_append rfl hw hname
    · rcases List.mem_cons.1 h with rfl | h
      · exact Visit.isProper_append rfl hw hname
      · refine isProper_of_mem_visitEntries hguide (fun other hother => ?_) entries
          (wellFormed_directory_iff.1 hn).2 h
        rcases List.mem_append.1 hother with hother | hother
        · exact hw other hother
        · exact List.mem_singleton.1 hother ▸ hname

theorem isProper_of_mem_visitEntries {guide : Guide} (hguide : guide.IsProper) {w : Whereabouts}
    (hw : ∀ other ∈ w.names, IsName other) (entries : List (Text × Node))
    (hentries : ∀ e ∈ entries, IsName e.1 ∧ e.2.WellFormed) {v : Visit}
    (h : v ∈ visitEntries guide w entries) : v.IsProper := by
  match entries with
  | [] =>
    rw [visitEntries] at h
    cases h
  | (name, n) :: rest =>
    obtain ⟨⟨hname, hn⟩, hrest⟩ := List.forall_mem_cons.1 hentries
    rw [visitEntries, List.mem_append] at h
    rcases h with h | h
    · exact isProper_of_mem_visit hguide hw hname n hn h
    · exact isProper_of_mem_visitEntries hguide hw rest hrest h

end

end Node

namespace FileSystem

variable {fs : FileSystem} {p : FilePath}

/-- What a walk meets at a link is the link itself, or in the directory that the link leads to. -/
theorem mem_followLink {depth : Nat} {w : Whereabouts} {name : Text} {v : Visit}
    (h : v ∈ fs.followLink p depth w name) :
    v.names = w.names ++ [name] ∨ ∃ further place entries, depth = further + 1 ∧
      fs.find (p.joinNames (w.names ++ [name])) = .ok (place, .directory entries) ∧
      v ∈ Node.visitEntries ⟨fs.followLink p further, fs.bar? p⟩
        ⟨place :: w.inside, place, w.names ++ [name]⟩ entries := by
  rw [followLink.eq_def] at h
  simp only at h
  split at h
  · rw [List.mem_singleton.1 h]
    exact .inl rfl
  · next place entries further hfind =>
    split at h
    -- a directory in which the walk is already is not entered again
    · rw [List.mem_singleton.1 h]
      exact .inl rfl
    · rcases List.mem_cons.1 h with rfl | h
      · exact .inl rfl
      · exact .inr ⟨further, place, entries, rfl, hfind, h⟩
  · rw [List.mem_singleton.1 h]
    exact .inl rfl
  · rw [List.mem_singleton.1 h]
    exact .inl rfl

/-- Links are followed to directories of the same tree, at whatever depth. -/
theorem isProper_followLink (hfs : fs.root.WellFormed) (p : FilePath) (depth : Nat) :
    Guide.IsProper ⟨fs.followLink p depth, fs.bar? p⟩ := by
  -- on how many more links may be followed: behind one, the guide may follow one less
  induction depth with
  | zero =>
    intro w name hw hname v hv
    rcases mem_followLink hv with hv | ⟨further, -, -, hdepth, -⟩
    · exact Visit.isProper_append hv hw hname
    · cases hdepth
  | succ depth ih =>
    intro w name hw hname v hv
    rcases mem_followLink hv with hv | ⟨further, place, entries, hdepth, hfind, hv⟩
    · exact Visit.isProper_append hv hw hname
    · obtain rfl := Nat.succ.inj hdepth
      refine Node.isProper_of_mem_visitEntries ih (fun other hother => ?_) entries
        (Node.wellFormed_directory_iff.1 (wellFormed_of_find hfs hfind)).2 hv
      rcases List.mem_append.1 hother with hother | hother
      · exact hw other hother
      · exact List.mem_singleton.1 hother ▸ hname

/-- **A walk comes by proper names**, and by at least one. -/
theorem isProper_of_mem_walk (hfs : fs.root.WellFormed) {v : Visit} (h : v ∈ fs.walk p) :
    v.IsProper := by
  unfold walk at h
  split at h
  · next place entries hfind =>
    -- the guide of a whole walk follows links alike, and bars no directory
    have hguide : Guide.IsProper ⟨fs.followLink p maxLinks, fun _ => none⟩ :=
      isProper_followLink hfs p maxLinks
    exact Node.isProper_of_mem_visitEntries hguide (fun _ hother => absurd hother List.not_mem_nil)
      entries (Node.wellFormed_directory_iff.1 (wellFormed_of_find hfs hfind)).2 h
  · cases h

end FileSystem

end Stencil
