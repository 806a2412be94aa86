import Mathlib.Data.Set.Card
import Stencil.Proofs.File.Confined
import Stencil.Proofs.File.Tour
import Stencil.Proofs.Site.Overlap
import Stencil.Proofs.Site.Repeated

/-!
# Static files in the output

Copying a directory into one that keeps apart from it lays all that stands below the one over what
stands below the other: files byte for byte, and directories, with and without anything in them. The
directories on the way of a file are among what is copied, so nothing else is made, and what is
copied is not changed by the copying.

* `SiteAction.CopiesFrom` — that a file system holds what is to be copied;
* `SiteAction.IsPartOf` — that something of it has been copied;
* `SiteAction.copied_of_visitDeeds` — each visit of a walk copies some of it;
* `SiteAction.view_of_staticDeeds` — what copying a directory changes, in whatever order it lists
  its entries;
* `SiteAction.staticDeeds_perm` — copying the same tree again comes to the same deeds, one after
  the other in whatever order;
* `staticCount_eq` — how many files are counted.
-/

namespace Stencil

namespace TreeView

/-- **What stands below a place**, seen below another place. -/
def moved (v : TreeView) (source target : Place) : TreeView :=
  fun place =>
    if target <+: place ∧ place ≠ target then v (source ++ place.drop target.length) else none

variable {v : TreeView} {source target : Place}

theorem moved_append {names : List Text} (hne : names ≠ []) :
    v.moved source target (target ++ names) = v (source ++ names) := by
  have hother : target ++ names ≠ target := fun heq => hne (List.append_right_eq_self.1 heq)
  rw [moved, if_pos ⟨List.prefix_append .., hother⟩, List.drop_left]

/-- Nothing is seen anywhere else. -/
theorem moved_eq_none {place : Place} (h : ∀ names, names ≠ [] → place ≠ target ++ names) :
    v.moved source target place = none := by
  rw [moved, if_neg]
  rintro ⟨⟨names, rfl⟩, hne⟩
  refine h names (fun hnil => hne ?_) rfl
  rw [hnil, List.append_nil]

/-- Below a place that keeps apart from the target nothing is seen. -/
theorem moved_append_eq_none {other : Place} (hapart : ¬ Comparable target other)
    (names : List Text) : v.moved source target (other ++ names) = none := by
  refine moved_eq_none fun further _ heq => hapart ?_
  have hbelow : target <+: other ++ names := heq ▸ List.prefix_append ..
  exact List.prefix_or_prefix_of_prefix hbelow (List.prefix_append ..)

/-- What is seen is only what stands below the source. -/
theorem moved_congr {v' : TreeView} (h : ∀ names, v (source ++ names) = v' (source ++ names)) :
    v.moved source target = v'.moved source target := by
  funext place
  rw [moved, moved, h]

end TreeView

namespace SiteAction

/-! ### What is copied -/

/-- Whether a file system **holds what is to be copied**: the tree `m` stands at `source`, apart
from `target`, and there are directories on the way of `target`. -/
structure CopiesFrom (m : Node) (source target : FilePath) (fs : FileSystem) : Prop where
  unlinked : fs.Unlinked
  view_source : ∀ names, names ≠ [] → fs.view (fs.placeOf source ++ names) = m.view names
  view_way : ∀ place ∈ fs.way target, fs.view place = some .directory
  apart : ¬ Comparable (fs.placeOf target) (fs.placeOf source)

/-- Whether a file system has come from another one by **copying something of the tree** `m` to
`target`. -/
structure IsPartOf (m : Node) (target : FilePath) (fs fs' : FileSystem) : Prop where
  grows : fs.Grows fs'
  copied : ∀ place, fs'.view place = fs.view place ∨
    ∃ names, names ≠ [] ∧ place = fs.placeOf target ++ names ∧ m.view names ≠ none ∧
      fs'.view place = m.view names

section

variable {m : Node} {source target : FilePath} {fs fs' fs'' : FileSystem}

theorem isPartOf_refl (h : fs.Unlinked) : IsPartOf m target fs fs :=
  ⟨h.grows_refl, fun _ => .inl rfl⟩

theorem IsPartOf.trans (h : IsPartOf m target fs fs') (h' : IsPartOf m target fs' fs'') :
    IsPartOf m target fs fs'' := by
  refine ⟨h.grows.trans h'.grows, fun place => ?_⟩
  rcases h'.copied place with heq | ⟨names, hne, hplace, hsome, heq⟩
  · rw [heq]
    exact h.copied place
  · exact .inr ⟨names, hne, h.grows.placeOf_eq target ▸ hplace, hsome, heq⟩

/-- What has been copied stays as it is. -/
theorem IsPartOf.stays (h : IsPartOf m target fs fs') {names : List Text}
    (hview : fs.view (fs.placeOf target ++ names) = m.view names) :
    fs'.view (fs.placeOf target ++ names) = m.view names := by
  rcases h.copied (fs.placeOf target ++ names) with heq | ⟨names', -, hplace, -, heq⟩
  · exact heq.trans hview
  · rw [heq, List.append_cancel_left hplace]

/-- What is copied is not changed by it. -/
theorem CopiesFrom.of_isPartOf (h : CopiesFrom m source target fs)
    (hpart : IsPartOf m target fs fs') : CopiesFrom m source target fs' := by
  refine ⟨hpart.grows.unlinked, fun names hne => ?_, fun place hplace => ?_, ?_⟩
  · rw [hpart.grows.placeOf_eq]
    rcases hpart.copied (fs.placeOf source ++ names) with heq | ⟨names', -, hplace, -⟩
    · exact heq.trans (h.view_source names hne)
    · -- below the source there is nothing below the target
      have hbelow : fs.placeOf target <+: fs.placeOf source ++ names :=
        hplace ▸ List.prefix_append ..
      exact absurd (List.prefix_or_prefix_of_prefix hbelow (List.prefix_append ..)) h.apart
  · rw [hpart.grows.way_eq] at hplace
    exact hpart.grows.keeps.directory place (h.view_way place hplace)
  · rw [hpart.grows.placeOf_eq, hpart.grows.placeOf_eq]
    exact h.apart

/-! ### Single steps -/

/-- Making directories of the tree below the target copies these directories. -/
theorem isPartOf_of_makeDirectories (h : CopiesFrom m source target fs) {path : FilePath}
    {names : List Text} (hpath : path.bareSteps = target.bareSteps ++ names.map .down)
    (hnames : ∀ further, further <+: names → further ≠ [] → m.view further = some .directory)
    (hmake : fs.makeDirectories path = (fs', none)) : IsPartOf m target fs fs' := by
  obtain ⟨hgrows, -, hview, hway⟩ := FileSystem.makeDirectories_spec h.unlinked hmake
  refine ⟨hgrows, fun place => ?_⟩
  by_cases hmem : place ∈ fs.way path
  -- on the way to the target directories are there already, and below it they are part of the tree
  · rcases FileSystem.mem_way_of_bareSteps_eq hpath hmem with htarget | ⟨further, hprefix, hne, rfl⟩
    · left
      rw [hway place hmem, h.view_way place htarget]
    · right
      refine ⟨further, hne, rfl, ?_, ?_⟩
      · rw [hnames further hprefix hne]
        exact nofun
      · rw [hway _ hmem, hnames further hprefix hne]
  · left
    rw [hview, TreeView.onto, TreeView.directories_of_notMem hmem, Option.or_none]

/-- Copying a file of the tree below the target copies this file. -/
theorem isPartOf_of_copy (h : CopiesFrom m source target fs) {path copied : FilePath}
    {names : List Text} (hne : names ≠ []) (hview : m.view names ≠ none)
    (hpath : fs.placeOf path = fs.placeOf source ++ names)
    (hcopied : fs.placeOf copied = fs.placeOf target ++ names)
    (hcopy : fs.copy path copied = .ok fs') :
    IsPartOf m target fs fs' ∧ fs'.view (fs.placeOf target ++ names) = m.view names := by
  -- source and target lie apart, so no file is copied onto itself
  have hplaces : fs.placeOf path ≠ fs.placeOf copied := by
    rw [hpath, hcopied]
    intro heq
    have hbelow : fs.placeOf target <+: fs.placeOf source ++ names := heq ▸ List.prefix_append ..
    exact h.apart (List.prefix_or_prefix_of_prefix hbelow (List.prefix_append ..))
  have hchanged := FileSystem.view_of_copy h.unlinked hplaces hcopy
  rw [hpath, hcopied, h.view_source names hne] at hchanged
  have hthere : fs'.view (fs.placeOf target ++ names) = m.view names := by
    rw [hchanged, Function.update_self]
  refine ⟨⟨(FileSystem.grows_of_copy h.unlinked hcopy).1, fun place => ?_⟩, hthere⟩
  by_cases heq : place = fs.placeOf target ++ names
  · subst heq
    exact .inr ⟨names, hne, rfl, hview, hthere⟩
  · left
    rw [hchanged, Function.update_of_ne heq]

end

/-! ### Visits -/

/-- Whether a walk through a tree may meet this: a file or a directory below its top. -/
def IsMet (m : Node) (v : Visit) : Prop :=
  ∃ names item, names ≠ [] ∧ m.view names = some item ∧ item.visit? names = some v

section

variable {m : Node} {source target : FilePath}

theorem forall_isName_of_view {names : List Text} (hm : m.WellFormed) (h : m.view names ≠ none) :
    ∀ name ∈ names, Node.IsName name := by
  cases hat : m.at? names with
  | none =>
    refine absurd ?_ h
    rw [Node.view, hat]
    rfl
  | some n => exact (Node.wellFormed_of_at? hm hat).1

/-- A path that goes down names from a directory. -/
theorem bareSteps_join_unpieces {names : List Text} (hne : names ≠ [])
    (hnames : ∀ name ∈ names, Node.IsName name) (p : FilePath) :
    (p.join (Text.unpieces '/' names)).bareSteps = p.bareSteps ++ names.map .down := by
  have hconfined := FilePath.confined_unpieces hne hnames
  have hslash : ∀ name ∈ names, '/' ∉ name := fun name hname => (hnames name hname).2.2.2
  rw [FilePath.bareSteps_join hconfined.relative, FilePath.bareSteps_of_relative hconfined.relative,
    Text.pieces_unpieces hne hslash, FilePath.bareStepsOf_of_isName hnames]

/-- Making the directory around a file of the tree below the target. -/
theorem isPartOf_of_parentDeeds {w w' : World} (h : CopiesFrom m source target w.files)
    {path : FilePath} {names : List Text} (hne : names ≠ [])
    (hpath : path.bareSteps = target.bareSteps ++ names.map .down) (hview : m.view names ≠ none)
    (hdeeds : (carryOutAll (parentDeeds path)).perform w = (.ok (), w')) :
    IsPartOf m target w.files w'.files := by
  unfold parentDeeds at hdeeds
  cases hparent : path.parent? with
  | none =>
    rw [hparent] at hdeeds
    obtain ⟨-, rfl⟩ := Prod.mk.inj hdeeds
    exact isPartOf_refl h.unlinked
  | some parent =>
    rw [hparent, Option.toList_some, List.map_singleton, carryOutAll_singleton] at hdeeds
    have hsteps : parent.bareSteps = target.bareSteps ++ names.dropLast.map .down := by
      rw [FilePath.bareSteps_of_parent?_eq_some hparent, hpath,
        List.dropLast_append_of_ne_nil (mt List.map_eq_nil_iff.1 hne), List.map_dropLast]
    refine isPartOf_of_makeDirectories h hsteps (fun further hprefix _ => ?_)
      (makeDirectories_eq_ok hdeeds)
    -- what is around a file of the tree are directories of the tree
    obtain ⟨rest, hrest⟩ := hprefix
    have hsplit : names = further ++ (rest ++ [names.getLast hne]) := by
      rw [← List.append_assoc, hrest, List.dropLast_append_getLast]
    have hbelow : rest ++ [names.getLast hne] ≠ [] :=
      List.append_ne_nil_of_right_ne_nil rest (List.cons_ne_nil _ _)
    refine Node.view_eq_directory_of_append hbelow ?_
    rw [← hsplit]
    exact hview

/-- Where a name below a path leads. -/
theorem placeOf_join_unpieces {names : List Text} (hne : names ≠ [])
    (hnames : ∀ name ∈ names, Node.IsName name) (p : FilePath) (fs : FileSystem) :
    fs.placeOf (p.join (Text.unpieces '/' names)) = fs.placeOf p ++ names := by
  rw [FileSystem.placeOf, bareSteps_join_unpieces hne hnames, Place.follow_append,
    Place.follow_map_down]
  rfl

section Visit

variable {w w' : World} {names : List Text} (hm : m.WellFormed)
  (h : CopiesFrom m source target w.files) (hne : names ≠ [])
include hm h hne

/-- **A directory that a walk met is copied.** -/
theorem copied_of_directory (hitem : m.view names = some .directory)
    (hdeeds : (carryOutAll (visitDeeds source target [.directory names])).perform w
      = (.ok (), w')) :
    IsPartOf m target w.files w'.files ∧
      w'.files.view (w.files.placeOf target ++ names) = m.view names := by
  have hsome : m.view names ≠ none := hitem ▸ Option.some_ne_none _
  have hnames := forall_isName_of_view hm hsome
  have hpath := bareSteps_join_unpieces hne hnames target
  have hmake := makeDirectories_eq_ok (carryOutAll_singleton _ ▸ hdeeds)
  refine ⟨isPartOf_of_makeDirectories h hpath (fun further hprefix _ => ?_) hmake, ?_⟩
  -- whatever lies above a node of the tree is a directory
  · obtain ⟨rest, rfl⟩ := hprefix
    by_cases hnil : rest = []
    · rw [hnil, List.append_nil] at hitem
      exact hitem
    · exact Node.view_eq_directory_of_append hnil hsome
  · have hsteps : (target.join (Text.unpieces '/' names)).bareSteps ≠ [] := by
      rw [hpath]
      exact List.append_ne_nil_of_right_ne_nil _ (mt List.map_eq_nil_iff.1 hne)
    rw [hitem, ← placeOf_join_unpieces hne hnames]
    exact (FileSystem.makeDirectories_spec h.unlinked hmake).2.2.2 _
      (FileSystem.placeOf_mem_way hsteps)

/-- **A file that a walk met is copied.** -/
theorem copied_of_file {content : ByteArray} (hitem : m.view names = some (.file content))
    (hdeeds : (carryOutAll (visitDeeds source target [.file names])).perform w = (.ok (), w')) :
    IsPartOf m target w.files w'.files ∧
      w'.files.view (w.files.placeOf target ++ names) = m.view names := by
  have hsome : m.view names ≠ none := hitem ▸ Option.some_ne_none _
  have hnames := forall_isName_of_view hm hsome
  -- the directories above the file are made, the file is copied, and that is logged
  obtain ⟨u, hparent, hdeeds⟩ := carryOutAll_append_eq_ok hdeeds
  obtain ⟨u', hcopy, hdeeds⟩ := carryOutAll_cons_eq_ok hdeeds
  obtain ⟨u'', hlog, hend⟩ := carryOutAll_cons_eq_ok hdeeds
  obtain ⟨-, rfl⟩ := Prod.mk.inj hend
  have hpart := isPartOf_of_parentDeeds h hne (bareSteps_join_unpieces hne hnames target) hsome
    hparent
  have hfrom : u.files.placeOf (source.joinNames names) = u.files.placeOf source ++ names :=
    FileSystem.placeOf_joinNames hnames
  obtain ⟨hpart', hthere⟩ := isPartOf_of_copy (h.of_isPartOf hpart) hne hsome hfrom
    (placeOf_join_unpieces hne hnames target u.files) (change_eq_ok hcopy)
  rw [hpart.grows.placeOf_eq] at hthere
  rw [log_eq_ok hlog]
  exact ⟨hpart.trans hpart', hthere⟩

end Visit

/-- What a visit comes to comes before what those behind it come to. -/
theorem visitDeeds_cons {v : Visit} (hv : IsMet m v) (visits : List Visit) :
    visitDeeds source target (v :: visits)
      = visitDeeds source target [v] ++ visitDeeds source target visits := by
  obtain ⟨names, item, -, -, hvisit⟩ := hv
  cases item with
  | link path => cases hvisit
  | directory =>
    obtain rfl := Option.some.inj hvisit
    rfl
  | file content =>
    obtain rfl := Option.some.inj hvisit
    simp only [visitDeeds, List.append_assoc, List.cons_append, List.nil_append]

/-- What visits come to is what each of them comes to. -/
theorem visitDeeds_eq_flatMap {visits : List Visit} (hvisits : ∀ v ∈ visits, IsMet m v) :
    visitDeeds source target visits
      = visits.flatMap fun v => visitDeeds source target [v] := by
  induction visits with
  | nil => rfl
  | cons v visits ih =>
    obtain ⟨hv, hrest⟩ := List.forall_mem_cons.1 hvisits
    rw [visitDeeds_cons hv, List.flatMap_cons, ih hrest]

/-- **What a walk met is copied**, each file and each directory. -/
theorem copied_of_visitDeeds (hm : m.WellFormed) {visits : List Visit}
    (hvisits : ∀ v ∈ visits, IsMet m v) {w w' : World} (h : CopiesFrom m source target w.files)
    (hdeeds : (carryOutAll (visitDeeds source target visits)).perform w = (.ok (), w')) :
    IsPartOf m target w.files w'.files ∧
      ∀ v ∈ visits, w'.files.view (w.files.placeOf target ++ v.names) = m.view v.names := by
  induction visits generalizing w with
  | nil =>
    obtain ⟨-, rfl⟩ := Prod.mk.inj hdeeds
    exact ⟨isPartOf_refl h.unlinked, nofun⟩
  | cons v visits ih =>
    obtain ⟨hv, hrest⟩ := List.forall_mem_cons.1 hvisits
    rw [visitDeeds_cons hv] at hdeeds
    obtain ⟨u, hvisit, hmore⟩ := carryOutAll_append_eq_ok hdeeds
    have hfirst : IsPartOf m target w.files u.files ∧
        u.files.view (w.files.placeOf target ++ v.names) = m.view v.names := by
      obtain ⟨names, item, hne, hitem, hmet⟩ := hv
      cases item with
      | link path => cases hmet
      | directory =>
        obtain rfl := Option.some.inj hmet
        exact copied_of_directory hm h hne hitem hvisit
      | file content =>
        obtain rfl := Option.some.inj hmet
        exact copied_of_file hm h hne hitem hvisit
    obtain ⟨hpart, hview⟩ := hfirst
    -- the visits behind leave what this one has copied
    obtain ⟨hpart', hothers⟩ := ih hrest (h.of_isPartOf hpart) hmore
    have hplace := hpart.grows.placeOf_eq target
    simp only [hplace] at hothers
    refine ⟨hpart.trans hpart', List.forall_mem_cons.2 ⟨?_, hothers⟩⟩
    rw [← hplace] at hview ⊢
    exact hpart'.stays hview

/-! ### Directories -/

/-- When all of the tree has been copied, it lies over what stood there. -/
theorem IsPartOf.view_eq {fs fs' : FileSystem} (h : IsPartOf m target fs fs')
    (hsource : ∀ names, fs.view (fs.placeOf source ++ names) = m.view names)
    (hall : ∀ names item, names ≠ [] → m.view names = some item →
      fs'.view (fs.placeOf target ++ names) = some item) :
    fs'.view = (fs.view.moved (fs.placeOf source) (fs.placeOf target)).onto fs.view := by
  funext place
  rw [TreeView.onto]
  -- what is not copied to a place stays as it was
  by_cases hbelow : ∃ names, names ≠ [] ∧ place = fs.placeOf target ++ names
  · obtain ⟨names, hne, rfl⟩ := hbelow
    rw [TreeView.moved_append hne, hsource]
    cases hitem : m.view names with
    | some item => exact hall names item hne hitem
    | none =>
      refine (h.copied _).resolve_right ?_
      rintro ⟨names', -, hplace, hsome, -⟩
      exact hsome (List.append_cancel_left hplace ▸ hitem)
  · have hnot : ∀ names, names ≠ [] → place ≠ fs.placeOf target ++ names :=
      fun names hne hplace => hbelow ⟨names, hne, hplace⟩
    rw [TreeView.moved_eq_none hnot, Option.none_or]
    refine (h.copied place).resolve_right ?_
    rintro ⟨names, hne, hplace, -⟩
    exact hnot names hne hplace

/-- What a directory is that a path leads to. -/
theorem exists_find_of_isDirectory {fs : FileSystem} (hfs : fs.Unlinked)
    (h : fs.isDirectory source = true) : ∃ n, fs.find source = .ok (fs.placeOf source, n) ∧
      n.WellFormed ∧ n.LinkFree ∧
      ∀ names, fs.view (fs.placeOf source ++ names) = n.view names := by
  obtain ⟨htaken, hpassable, hdirectory⟩ := (FileSystem.isDirectory_iff hfs.linkFree).1 h
  obtain ⟨entries, hat⟩ := Node.view_eq_directory_iff.1 hdirectory
  refine ⟨_, (FileSystem.find_eq_ok_iff hfs.linkFree).2 ⟨htaken, hpassable, rfl, hat⟩, ?_, ?_, ?_⟩
  · exact (Node.wellFormed_of_at? hfs.wellFormed hat).2
  · exact Node.linkFree_of_at? hfs.linkFree hat
  · exact Node.view_append hat

/-- **What copying a directory changes**, in whatever order: all that stands below it is laid over
what stands below the target, if it is there at all. -/
theorem view_of_staticDeeds {order : VisitOrder} {w w' : World} (hw : w.files.Unlinked)
    (htarget : (Deed.makeDirectories target).Done w.files)
    (hapart : ¬ Comparable (w.files.placeOf target) (w.files.placeOf source))
    (h : (carryOutAll (staticDeeds order w.files source target)).perform w = (.ok (), w')) :
    w'.files.view = if w.files.isDirectory source then
        (w.files.view.moved (w.files.placeOf source) (w.files.placeOf target)).onto w.files.view
      else w.files.view := by
  unfold staticDeeds at h
  split at h
  · next hsource =>
    rw [if_pos hsource]
    obtain ⟨m, hfind, hm, hlinks, hview⟩ := exists_find_of_isDirectory hw hsource
    have hmet {v : Visit} : v ∈ order.arrange (w.files.walk source) ↔ IsMet m v :=
      (order.perm _).mem_iff.trans (FileSystem.mem_walk_iff hlinks hm hfind)
    have hway : ∀ place ∈ w.files.way target, w.files.view place = some .directory := by
      intro place hplace
      rcases htarget with rfl | htarget
      · cases hplace
      · exact FileSystem.view_of_mem_way hw.linkFree htarget hplace
    obtain ⟨hpart, hvisited⟩ := copied_of_visitDeeds hm (fun v hv => hmet.1 hv)
      ⟨hw, fun names _ => hview names, hway, hapart⟩ h
    refine hpart.view_eq hview fun names item hne hitem => ?_
    -- the walk has met it, so it has been copied
    obtain ⟨v, hv, hnames⟩ := item.exists_visit?
      (fun path heq => Node.view_ne_link hlinks names path (heq ▸ hitem)) names
    have hthere := hvisited v (hmet.2 ⟨names, item, hne, hitem, hv⟩)
    rw [hnames, hitem] at hthere
    exact hthere
  · next hsource =>
    rw [carryOutAll_singleton] at h
    rw [if_neg hsource, log_eq_ok h]

/-- **What is copied is decided by what stands below the source**, if it is there; the order decides
what is copied first. -/
theorem staticDeeds_perm {fs fs' : FileSystem} (hfs : fs.Unlinked) (hgrows : fs.Grows fs')
    (h : fs.isDirectory source = true)
    (hview : ∀ names,
      fs'.view (fs.placeOf source ++ names) = fs.view (fs.placeOf source ++ names))
    (order order' : VisitOrder) :
    (staticDeeds order' fs' source target).Perm (staticDeeds order fs source target) ∧
      staticCount fs' source = staticCount fs source := by
  have h' := hgrows.isDirectory hfs h
  obtain ⟨n, hfind, hn, hlinks, hnview⟩ := exists_find_of_isDirectory hfs h
  obtain ⟨n', hfind', hn', -, hnview'⟩ := exists_find_of_isDirectory hgrows.unlinked h'
  -- the same stands below the source, so both walks meet the same
  obtain rfl : n' = n := by
    refine Node.eq_of_view_eq n' n hn' hn (funext fun names => ?_)
    rw [← hnview', ← hnview, hgrows.placeOf_eq, hview]
  have hwalk := FileSystem.walk_eq_walk hlinks hfind' hfind
  rw [staticDeeds, staticDeeds, staticCount, staticCount, if_pos h, if_pos h, if_pos h', if_pos h',
    hwalk]
  refine ⟨?_, rfl⟩
  have hmet (o : VisitOrder) : ∀ v ∈ o.arrange (fs.walk source), IsMet n' v :=
    fun v hv => (FileSystem.mem_walk_iff hlinks hn hfind).1 ((o.perm _).mem_iff.1 hv)
  have horders := (order'.perm (fs.walk source)).trans (order.perm (fs.walk source)).symm
  rw [visitDeeds_eq_flatMap (hmet order'), visitDeeds_eq_flatMap (hmet order)]
  exact horders.flatMap_right _

end

end SiteAction

/-! ### Counting -/

/-- Where no directory is barred, the files that a walk met are those that can be told by it. -/
theorem fileCount_eq {visits : List Visit} (h : ∀ names fault, .barred names fault ∉ visits) :
    fileCount visits = (visits.filterMap Glob.fileNames?).length := by
  induction visits with
  | nil => rfl
  | cons v visits ih =>
    have hrest := ih fun names fault hmem => h names fault (List.mem_cons_of_mem _ hmem)
    cases v with
    | directory names => exact hrest
    | fault names fault => exact hrest
    | barred names fault => exact absurd List.mem_cons_self (h names fault)
    | file names => exact congrArg (· + 1) hrest

/-- A directory is no file. -/
theorem FileSystem.isFile_eq_false {fs : FileSystem} {p : FilePath} (h : fs.isDirectory p = true) :
    fs.isFile p = false := by
  unfold isDirectory at h
  split at h
  · next place n hfind =>
    rw [isFile, hfind]
    cases n with
    | directory entries => rfl
    | file content => cases h
    | link target => cases h
  · cases h

/-- What stands at a name is never met as a barred directory. -/
theorem SiteAction.not_isMet_barred {m : Node} (names : List Text) (fault : IoFault) :
    ¬ IsMet m (.barred names fault) := by
  rintro ⟨_, item, -, -, hvisit⟩
  cases item with
  | file content => cases hvisit
  | directory => cases hvisit
  | link target => cases hvisit

/-- The files of a directory, by the names that lead to them, are those that are seen below it. -/
theorem setOf_view_eq_file {fs : FileSystem} {place : Place} {n : Node} (hn : n.WellFormed)
    (hview : ∀ names, fs.view (place ++ names) = n.view names) :
    {names | ∃ content, fs.view (place ++ names) = some (.file content)}
      = (n.files.toFinset : Set Place) := by
  refine Set.ext fun names => ?_
  rw [Finset.mem_coe, List.mem_toFinset, Node.mem_files_iff hn]
  refine exists_congr fun content => ?_
  rw [hview, Node.view_eq_file_iff]

/-- **How many files are counted** in copying a directory: those that stand below it. -/
theorem staticCount_eq {fs : FileSystem} {source : FilePath} (hfs : fs.Unlinked)
    (h : fs.isDirectory source = true) : staticCount fs source
      = {names | ∃ content, fs.view (fs.placeOf source ++ names) = some (.file content)}.ncard := by
  obtain ⟨n, hfind, hn, hlinks, hview⟩ := SiteAction.exists_find_of_isDirectory hfs h
  have hbarred : ∀ names fault, .barred names fault ∉ fs.walk source := fun names fault hmem =>
    SiteAction.not_isMet_barred names fault ((FileSystem.mem_walk_iff hlinks hn hfind).1 hmem)
  -- what a walk meets and counts is the list of files of the node, each once
  have hfiles : (fs.walk source).filterMap Glob.fileNames? = n.files := by
    have hbelow := Glob.filesBelow_eq hfind hlinks
    rw [Glob.filesBelow, FileSystem.isFile_eq_false h] at hbelow
    exact hbelow
  have hnodup : n.files.Nodup := by
    refine (Node.pairwise_files n hn).imp ?_
    rintro names _ hlt rfl
    exact List.lt_irrefl names hlt
  rw [staticCount, if_pos h, fileCount_eq hbarred, hfiles, setOf_view_eq_file hn hview,
    Set.ncard_coe_finset, List.toFinset_card_of_nodup hnodup]

end Stencil
