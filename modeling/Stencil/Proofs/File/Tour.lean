import Stencil.Proofs.File.Plain
import Stencil.Proofs.File.Route

/-!
# Walks through trees without links

In a tree without links, a walk meets everything that stands below the directory where it begins:
the files and the directories, by the names that lead to them (`FileSystem.mem_walk_iff`). It needs
to look nothing up on the way, so it meets the same wherever the directory stands
(`FileSystem.walk_eq_walk`).
-/

namespace Stencil

/-- What a walk meets at an item, by the names that lead to it. -/
def Item.visit? (names : List Text) : Item → Option Visit
  | .file _ => some (.file names)
  | .directory => some (.directory names)
  | .link _ => none

/-- A walk meets all items but links. -/
theorem Item.exists_visit? {item : Item} (h : ∀ target, item ≠ .link target) (names : List Text) :
    ∃ v, item.visit? names = some v ∧ v.names = names := by
  cases item with
  | file content => exact ⟨.file names, rfl, rfl⟩
  | directory => exact ⟨.directory names, rfl, rfl⟩
  | link target => exact absurd rfl (h target)

namespace Node

mutual

/-- A walk meets what stands at an entry and below it. -/
theorem mem_visit_iff {guide : Guide} (hguide : ∀ names, guide.bar? names = none)
    (w : Whereabouts) (name : Text) (n : Node) (hlinks : n.LinkFree) (hwell : n.WellFormed)
    {v : Visit} :
    v ∈ n.visit guide w name ↔
      ∃ place item, n.view place = some item ∧ item.visit? (w.names ++ name :: place) = some v := by
  cases n with
  | link target =>
    rw [LinkFree] at hlinks
    exact hlinks.elim
  | file content =>
    -- a file has nothing below it
    rw [visit, List.mem_singleton]
    constructor
    · rintro rfl
      exact ⟨[], .file content, rfl, rfl⟩
    · rintro ⟨place, item, hview, hvisit⟩
      rw [(isLeaf_file content).view_eq] at hview
      split at hview
      · next hnil =>
        obtain rfl := Option.some.inj hview
        rw [hnil] at hvisit
        exact (Option.some.inj hvisit).symm
      · cases hview
  | directory entries =>
    have hbelow :=
      mem_visitEntries_iff hguide (w.down name) entries (linkFree_directory_iff.1 hlinks)
      (wellFormed_directory_iff.1 hwell).2 (v := v)
    simp only [Whereabouts.down, List.append_assoc, List.singleton_append] at hbelow
    simp only [visit, hguide, List.mem_cons]
    rw [Whereabouts.down, hbelow]
    -- the directory itself is met first, and then what is below its entries
    constructor
    · rintro (rfl | ⟨e, he, place, item, hview, hvisit⟩)
      · exact ⟨[], .directory, rfl, rfl⟩
      · refine ⟨e.1 :: place, item, ?_, hvisit⟩
        rw [view_cons, (child?_eq_some_iff hwell).2 he]
        exact hview
    · rintro ⟨place, item, hview, hvisit⟩
      cases place with
      | nil =>
        obtain rfl := Option.some.inj hview
        exact .inl (Option.some.inj hvisit).symm
      | cons first place =>
        rw [view_cons] at hview
        obtain ⟨child, hchild, hview⟩ := Option.bind_eq_some_iff.1 hview
        exact .inr ⟨(first, child), (child?_eq_some_iff hwell).1 hchild, place, item, hview, hvisit⟩

theorem mem_visitEntries_iff {guide : Guide} (hguide : ∀ names, guide.bar? names = none)
    (w : Whereabouts) (entries : List (Text × Node)) (hlinks : ∀ e ∈ entries, e.2.LinkFree)
    (hwell : ∀ e ∈ entries, IsName e.1 ∧ e.2.WellFormed) {v : Visit} :
    v ∈ visitEntries guide w entries ↔ ∃ e ∈ entries, ∃ place item,
      e.2.view place = some item ∧ item.visit? (w.names ++ e.1 :: place) = some v := by
  match entries with
  | [] =>
    rw [visitEntries]
    exact iff_of_false List.not_mem_nil fun ⟨_, he, _⟩ => List.not_mem_nil he
  | (name, n) :: rest =>
    obtain ⟨hn, hrest⟩ := List.forall_mem_cons.1 hlinks
    obtain ⟨hnwell, hrestwell⟩ := List.forall_mem_cons.1 hwell
    rw [visitEntries, List.mem_append, mem_visit_iff hguide w name n hn hnwell.2,
      mem_visitEntries_iff hguide w rest hrest hrestwell, List.exists_mem_cons_iff]

end

mutual

/-- A walk does not need its guide, nor the place where it is. -/
theorem visit_congr {guide guide' : Guide} (hguide : ∀ names, guide.bar? names = none)
    (hguide' : ∀ names, guide'.bar? names = none) {w w' : Whereabouts} (hnames : w.names = w'.names)
    (name : Text) (n : Node) (hlinks : n.LinkFree) :
    n.visit guide w name = n.visit guide' w' name := by
  cases n with
  | link target =>
    rw [LinkFree] at hlinks
    exact hlinks.elim
  | file content => rw [visit, visit, hnames]
  | directory entries =>
    have hdown : (w.down name).names = (w'.down name).names := congrArg (· ++ [name]) hnames
    simp only [visit, hguide, hguide', hnames,
      visitEntries_congr hguide hguide' hdown entries (linkFree_directory_iff.1 hlinks)]

theorem visitEntries_congr {guide guide' : Guide} (hguide : ∀ names, guide.bar? names = none)
    (hguide' : ∀ names, guide'.bar? names = none) {w w' : Whereabouts} (hnames : w.names = w'.names)
    (entries : List (Text × Node)) (hlinks : ∀ e ∈ entries, e.2.LinkFree) :
    visitEntries guide w entries = visitEntries guide' w' entries := by
  match entries with
  | [] => rw [visitEntries, visitEntries]
  | (name, n) :: rest =>
    obtain ⟨hn, hrest⟩ := List.forall_mem_cons.1 hlinks
    rw [visitEntries, visitEntries, visit_congr hguide hguide' hnames name n hn,
      visitEntries_congr hguide hguide' hnames rest hrest]

end

end Node

namespace FileSystem

variable {fs : FileSystem} {p : FilePath} {place : Place} {n : Node}

/-- **What a walk meets** is what stands below the directory where it begins. -/
theorem mem_walk_iff (hlinks : n.LinkFree) (hwell : n.WellFormed)
    (hfind : fs.find p = .ok (place, n)) {v : Visit} :
    v ∈ fs.walk p ↔
      ∃ names item, names ≠ [] ∧ n.view names = some item ∧ item.visit? names = some v := by
  rw [walk, hfind]
  cases n with
  | link target =>
    rw [Node.LinkFree] at hlinks
    exact hlinks.elim
  | file content =>
    refine iff_of_false List.not_mem_nil ?_
    rintro ⟨names, item, hne, hview, -⟩
    rw [(Node.isLeaf_file content).view_eq, if_neg hne] at hview
    cases hview
  | directory entries =>
    change v ∈ Node.visitEntries _ _ entries ↔ _
    -- a walk passes over the directory where it begins, and no link stops it
    have hguide : ∀ names, Guide.bar? ⟨fs.followLink p maxLinks, fun _ => none⟩ names = none :=
      fun _ => rfl
    rw [Node.mem_visitEntries_iff hguide _ entries (Node.linkFree_directory_iff.1 hlinks)
      (Node.wellFormed_directory_iff.1 hwell).2]
    constructor
    · rintro ⟨e, he, rest, item, hview, hvisit⟩
      refine ⟨e.1 :: rest, item, List.cons_ne_nil _ _, ?_, hvisit⟩
      rw [Node.view_cons, (Node.child?_eq_some_iff hwell).2 he]
      exact hview
    · rintro ⟨names, item, hne, hview, hvisit⟩
      obtain ⟨name, rest, rfl⟩ := List.exists_cons_of_ne_nil hne
      rw [Node.view_cons] at hview
      obtain ⟨child, hchild, hview⟩ := Option.bind_eq_some_iff.1 hview
      exact ⟨(name, child), (Node.child?_eq_some_iff hwell).1 hchild, rest, item, hview, hvisit⟩

/-- **Walks through one tree** meet the same, wherever it stands. -/
theorem walk_eq_walk {fs' : FileSystem} {p' : FilePath} {place' : Place} (hlinks : n.LinkFree)
    (hfind : fs.find p = .ok (place, n)) (hfind' : fs'.find p' = .ok (place', n)) :
    fs.walk p = fs'.walk p' := by
  rw [walk, walk, hfind, hfind']
  cases n with
  | link target => rfl
  | file content => rfl
  | directory entries =>
    -- without links, a walk does not look at where it is
    have hguide (fs : FileSystem) (p : FilePath) :
        ∀ names, Guide.bar? ⟨fs.followLink p maxLinks, fun _ => none⟩ names = none :=
      fun _ => rfl
    have hnames :
        Whereabouts.names ⟨[place], place, []⟩ = Whereabouts.names ⟨[place'], place', []⟩ :=
      rfl
    exact Node.visitEntries_congr (hguide fs p) (hguide fs' p') hnames entries
      (Node.linkFree_directory_iff.1 hlinks)

end FileSystem

end Stencil
