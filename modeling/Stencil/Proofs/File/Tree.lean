import Stencil.Glob.Files
import Stencil.Proofs.File.WellFormed

/-!
# The files of a tree

The files at and below a node stand at places, and a walk through a tree without links meets them in
the order of their places: the names on the way are compared one after the other.

* `Node.mem_files_iff` — the files that are listed are those in the tree;
* `Node.pairwise_files` — they are listed in the order of their places, each once;
* `Glob.filesBelow_eq` — a walk meets them in that order.
-/

namespace Stencil

/-! ### Entries -/

/-- Among entries in rising order, what stands at a name is the entry of that name. -/
theorem NameMap.find?_eq_some_iff {α : Type} {entries : List (Text × α)}
    (h : entries.Pairwise (·.1 < ·.1)) {name : Text} {value : α} :
    NameMap.find? name entries = some value ↔ (name, value) ∈ entries := by
  refine ⟨NameMap.mem_of_find?, fun hmem => ?_⟩
  induction entries with
  | nil => cases hmem
  | cons e entries ih =>
    obtain ⟨hfirst, hrest⟩ := List.pairwise_cons.1 h
    rcases List.mem_cons.1 hmem with rfl | hmem
    · exact if_pos rfl
    -- names rise, so no earlier entry has the name
    · have hlt : e.1 < name := hfirst (name, value) hmem
      have hne : e.1 ≠ name := fun heq => List.lt_irrefl name (heq ▸ hlt)
      rw [NameMap.find?, if_neg hne]
      exact ih hrest hmem

namespace Node

theorem at?_append (n : Node) (a b : Place) :
    n.at? (a ++ b) = (n.at? a).bind fun m => m.at? b := by
  induction a generalizing n with
  | nil => rfl
  | cons name a ih =>
    rw [List.cons_append, at?, at?, Option.bind_assoc]
    exact Option.bind_congr fun child _ => ih child

/-! ### Listing the files -/

mutual

/-- The places of the files at a node and below it, seen from there. -/
def files : Node → List Place
  | .file _ => [[]]
  | .link _ => []
  | .directory entries => entriesFiles entries

/-- The places of the files among some entries and below them. -/
def entriesFiles : List (Text × Node) → List Place
  | [] => []
  | (name, node) :: rest => (files node).map (name :: ·) ++ entriesFiles rest

end

theorem mem_entriesFiles_iff {entries : List (Text × Node)} {place : Place} :
    place ∈ entriesFiles entries ↔ ∃ name node, (name, node) ∈ entries ∧
      ∃ rest ∈ node.files, place = name :: rest := by
  induction entries with
  | nil =>
    rw [entriesFiles]
    exact iff_of_false List.not_mem_nil (fun ⟨_, _, hmem, _⟩ => absurd hmem List.not_mem_nil)
  | cons e entries ih =>
    obtain ⟨name, node⟩ := e
    -- a file lies in the first entry or in the others
    rw [entriesFiles, List.mem_append, ih, List.mem_map]
    constructor
    · rintro (⟨rest, hrest, rfl⟩ | ⟨other, m, hmem, hrest⟩)
      · exact ⟨name, node, List.mem_cons_self, rest, hrest, rfl⟩
      · exact ⟨other, m, List.mem_cons_of_mem _ hmem, hrest⟩
    · rintro ⟨other, m, hmem, rest, hrest, rfl⟩
      rcases List.mem_cons.1 hmem with heq | hmem
      · obtain ⟨rfl, rfl⟩ := Prod.mk.inj heq
        exact .inl ⟨rest, hrest, rfl⟩
      · exact .inr ⟨other, m, hmem, rest, hrest, rfl⟩

/-- **The places that are listed** are those of files. -/
theorem mem_files_iff {n : Node} (h : n.WellFormed) {place : Place} :
    place ∈ n.files ↔ ∃ content, n.at? place = some (.file content) := by
  induction place generalizing n with
  | nil =>
    cases n with
    | file content =>
      rw [files]
      exact iff_of_true List.mem_cons_self ⟨content, rfl⟩
    | link target =>
      rw [files]
      exact iff_of_false List.not_mem_nil (fun ⟨_, hat⟩ => nomatch hat)
    | directory entries =>
      rw [files, mem_entriesFiles_iff]
      exact iff_of_false (fun ⟨_, _, _, _, _, hnil⟩ => nomatch hnil) (fun ⟨_, hat⟩ => nomatch hat)
  | cons name place ih =>
    cases n with
    | file content =>
      rw [files, List.mem_singleton]
      exact iff_of_false nofun (fun ⟨_, hat⟩ => nomatch hat)
    | link target =>
      rw [files]
      exact iff_of_false List.not_mem_nil (fun ⟨_, hat⟩ => nomatch hat)
    | directory entries =>
      obtain ⟨hordered, hentries⟩ := wellFormed_directory_iff.1 h
      -- an entry is what its name leads to, since no name comes twice
      have hchild {node : Node} :
          (directory entries).child? name = some node ↔ (name, node) ∈ entries :=
        NameMap.find?_eq_some_iff hordered
      rw [files, mem_entriesFiles_iff]
      constructor
      · rintro ⟨other, node, hmem, rest, hrest, heq⟩
        obtain ⟨rfl, rfl⟩ := List.cons.inj heq
        obtain ⟨content, hcontent⟩ := (ih (hentries _ hmem).2).1 hrest
        exact ⟨content, Option.bind_eq_some_iff.2 ⟨node, hchild.2 hmem, hcontent⟩⟩
      · rintro ⟨content, hat⟩
        obtain ⟨node, hnode, hcontent⟩ := Option.bind_eq_some_iff.1 hat
        have hmem := hchild.1 hnode
        exact ⟨name, node, hmem, place, (ih (hentries _ hmem).2).2 ⟨content, hcontent⟩, rfl⟩

mutual

/-- **Files are listed in the order of their places**, each once. -/
theorem pairwise_files (n : Node) (h : n.WellFormed) : n.files.Pairwise (· < ·) := by
  cases n with
  | file content =>
    rw [files]
    exact List.pairwise_singleton ..
  | link target =>
    rw [files]
    exact .nil
  | directory entries =>
    obtain ⟨hordered, hentries⟩ := wellFormed_directory_iff.1 h
    rw [files]
    exact pairwise_entriesFiles entries hordered fun e he => (hentries e he).2

theorem pairwise_entriesFiles (entries : List (Text × Node))
    (hordered : entries.Pairwise (·.1 < ·.1)) (hwell : ∀ e ∈ entries, e.2.WellFormed) :
    (entriesFiles entries).Pairwise (· < ·) := by
  match entries with
  | [] =>
    rw [entriesFiles]
    exact .nil
  | (name, n) :: rest =>
    obtain ⟨hfirst, hordered⟩ := List.pairwise_cons.1 hordered
    obtain ⟨hn, hwell⟩ := List.forall_mem_cons.1 hwell
    rw [entriesFiles, List.pairwise_append]
    refine ⟨?_, pairwise_entriesFiles rest hordered hwell, ?_⟩
    · rw [List.pairwise_map]
      exact (pairwise_files n hn).imp fun hlt => List.cons_lt_cons_iff.2 (.inr ⟨rfl, hlt⟩)
    · -- what is below one entry comes before what is below a later one
      intro a ha b hb
      obtain ⟨place, -, rfl⟩ := List.mem_map.1 ha
      obtain ⟨other, m, hmem, place', -, rfl⟩ := mem_entriesFiles_iff.1 hb
      exact List.cons_lt_cons_iff.2 (.inl (hfirst _ hmem))

end

/-! ### Walks -/

theorem linkFree_directory_iff {entries : List (Text × Node)} :
    (directory entries).LinkFree ↔ ∀ e ∈ entries, e.2.LinkFree := by
  rw [LinkFree]
  induction entries with
  | nil =>
    rw [EntriesLinkFree]
    exact iff_of_true trivial nofun
  | cons e entries ih =>
    obtain ⟨name, node⟩ := e
    rw [EntriesLinkFree, ih, List.forall_mem_cons]

mutual

/-- Whether there is no link in a tree, by going through it. -/
def decideLinkFree : (n : Node) → Decidable (LinkFree n)
  | .file _ => isTrue trivial
  | .link _ => isFalse id
  | .directory entries => decideEntriesLinkFree entries

/-- Whether there is no link among some entries and below, by going through them. -/
def decideEntriesLinkFree : (entries : List (Text × Node)) → Decidable (EntriesLinkFree entries)
  | [] => isTrue trivial
  | (_, node) :: rest =>
    have := decideLinkFree node
    have := decideEntriesLinkFree rest
    inferInstanceAs (Decidable (LinkFree node ∧ EntriesLinkFree rest))

end

instance (n : Node) : Decidable n.LinkFree := decideLinkFree n

theorem linkFree_of_at? {n m : Node} {place : Place} (h : n.LinkFree)
    (hm : n.at? place = some m) : m.LinkFree := by
  induction place generalizing n with
  | nil =>
    obtain rfl := Option.some.inj hm
    exact h
  | cons name place ih =>
    obtain ⟨child, hchild, hrest⟩ := Option.bind_eq_some_iff.1 hm
    cases n with
    | file content => cases hchild
    | link target => cases hchild
    | directory entries =>
      have hmem : (name, child) ∈ entries := NameMap.mem_of_find? hchild
      exact ih (linkFree_directory_iff.1 h (name, child) hmem) hrest

mutual

/-- A walk meets the files below an entry in the order of their places, if no link is on the way and
no directory is barred. -/
theorem filterMap_fileNames?_visit {guide : Guide} (hguide : ∀ names, guide.bar? names = none)
    (w : Whereabouts) (name : Text) (n : Node) (h : n.LinkFree) :
    (n.visit guide w name).filterMap Glob.fileNames?
      = n.files.map fun place => w.names ++ name :: place := by
  cases n with
  | file content =>
    rw [visit, files]
    rfl
  | link target =>
    rw [LinkFree] at h
    exact h.elim
  | directory entries =>
    simp only [visit, files, hguide]
    change (visitEntries guide (w.down name) entries).filterMap Glob.fileNames? = _
    rw [filterMap_fileNames?_visitEntries hguide (w.down name) entries (linkFree_directory_iff.1 h)]
    simp only [Whereabouts.down, List.append_assoc, List.singleton_append]

theorem filterMap_fileNames?_visitEntries {guide : Guide}
    (hguide : ∀ names, guide.bar? names = none) (w : Whereabouts) (entries : List (Text × Node))
    (h : ∀ e ∈ entries, e.2.LinkFree) :
    (visitEntries guide w entries).filterMap Glob.fileNames?
      = (entriesFiles entries).map fun place => w.names ++ place := by
  match entries with
  | [] =>
    rw [visitEntries, entriesFiles]
    rfl
  | (name, n) :: rest =>
    obtain ⟨hn, hrest⟩ := List.forall_mem_cons.1 h
    rw [visitEntries, entriesFiles, List.filterMap_append, List.map_append, List.map_map,
      filterMap_fileNames?_visit hguide w name n hn,
      filterMap_fileNames?_visitEntries hguide w rest hrest]
    rfl

end

end Node

namespace Glob

variable {fs : FileSystem} {p : FilePath}

/-- **The files at and below a path** are those of the node that it leads to, if there is no link
below. -/
theorem filesBelow_eq {place : Place} {n : Node} (hfind : fs.find p = .ok (place, n))
    (h : n.LinkFree) : filesBelow fs p = n.files := by
  cases n with
  | file content =>
    rw [filesBelow, FileSystem.isFile, hfind, Node.files]
    rfl
  | link target =>
    rw [Node.LinkFree] at h
    exact h.elim
  | directory entries =>
    rw [filesBelow, FileSystem.isFile, hfind, FileSystem.walk, hfind, Node.files]
    change (Node.visitEntries _ _ entries).filterMap fileNames? = _
    rw [Node.filterMap_fileNames?_visitEntries (fun _ => rfl) _ entries
      (Node.linkFree_directory_iff.1 h)]
    exact List.map_id _

end Glob

end Stencil
