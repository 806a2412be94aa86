import Stencil.Proofs.File.Parent
import Stencil.Proofs.File.Route
import Stencil.Proofs.Text.Trimming

/-!
# What changes do to trees without links

In a tree without links, a change that is made by path changes the view of the tree at the place of
the path: writing and copying put a file there, and making directories puts one at each place on the
way where nothing was. Nothing is taken away, so what a path leads to stays, and doing the same once
more succeeds.

* `FileSystem.Grows` — that everything is kept, from one file system to another;
* `FileSystem.write_spec`, `FileSystem.view_of_copy`, `FileSystem.makeDirectories_spec` — what is
  changed if it succeeds;
* `FileSystem.exists_write`, `FileSystem.exists_copy`, `FileSystem.makeDirectories_of_isDirectory` —
  where the path leads to that already, it succeeds.
-/

namespace Stencil

namespace TreeView

variable {v : TreeView} {place : Place}

/-- A new item keeps all others, and a file may take the place of a file. -/
theorem keeps_update {item : Item} (h : v place = none ∨
    (∃ content, v place = some (.file content)) ∧ ∃ content, item = .file content) :
    v.Keeps (Function.update v place (some item)) where
  directory other hother := by
    -- what is replaced is no directory
    have hne : other ≠ place := by
      rintro rfl
      rcases h with h | ⟨⟨content, h⟩, -⟩
      · rw [hother] at h
        cases h
      · rw [hother] at h
        cases h
    rw [Function.update_of_ne hne]
    exact hother
  file other content hother := by
    by_cases heq : other = place
    · subst heq
      rcases h with h | ⟨-, content', rfl⟩
      · rw [hother] at h
        cases h
      · exact ⟨content', Function.update_self ..⟩
    · exact ⟨content, by rw [Function.update_of_ne heq, hother]⟩
  present other hother := by
    by_cases heq : other = place
    · subst heq
      rw [Function.update_self]
      exact nofun
    · rw [Function.update_of_ne heq]
      exact hother

end TreeView

namespace FilePath

/-- A slash behind a path is one more step to nowhere. -/
theorem steps_concat_slash {p : FilePath} (h : p ≠ []) :
    FilePath.steps (p ++ ['/']) = p.steps ++ [.stay] := by
  have hpieces : (p ++ ['/']).pieces '/' = p.pieces '/' ++ [[]] := Text.pieces_append_cons ..
  have habsolute : FilePath.isAbsolute (p ++ ['/']) = p.isAbsolute := isAbsolute_append h ['/']
  unfold steps
  rw [hpieces, habsolute, List.map_append]
  split
  · rfl
  · rfl

/-- Slashes behind a path are steps to nowhere. -/
theorem exists_steps_append_slashes {p : FilePath} (h : p ≠ []) {slashes : List Char}
    (hslashes : ∀ c ∈ slashes, c = '/') :
    ∃ behind, (∀ x ∈ behind, x = .stay) ∧ FilePath.steps (p ++ slashes) = p.steps ++ behind := by
  induction slashes using List.reverseRecOn with
  | nil => exact ⟨[], nofun, by rw [List.append_nil, List.append_nil]⟩
  | append_singleton slashes c ih =>
    obtain rfl : c = '/' := hslashes c List.mem_concat_self
    -- each slash adds one step to nowhere
    obtain ⟨behind, hbehind, hsteps⟩ := ih fun d hd => hslashes d (List.mem_append_left _ hd)
    refine ⟨behind ++ [.stay], fun x hx => ?_, ?_⟩
    · rcases List.mem_append.1 hx with hx | hx
      · exact hbehind x hx
      · exact List.mem_singleton.1 hx
    · rw [← List.append_assoc, steps_concat_slash (List.append_ne_nil_of_left_ne_nil h _), hsteps,
        List.append_assoc]

/-- What is left out of a path without its slashes are slashes. -/
theorem exists_slashes (p : FilePath) : ∃ slashes : List Char, (∀ c ∈ slashes, c = '/') ∧
    p = FileSystem.withoutSlashes p ++ slashes := by
  unfold FileSystem.withoutSlashes
  simp only
  split
  · exact ⟨[], nofun, (List.append_nil _).symm⟩
  · obtain ⟨slashes, hp, hslashes, -⟩ := Text.exists_eq_trimRight_append (· = '/') p
    exact ⟨slashes, fun c hc => of_decide_eq_true (hslashes c hc), hp⟩

theorem withoutSlashes_ne_nil {p : FilePath} (h : p ≠ []) : FileSystem.withoutSlashes p ≠ [] := by
  unfold FileSystem.withoutSlashes
  simp only
  split
  · exact h
  · next hne => exact fun hnil => hne (List.isEmpty_iff.2 hnil)

/-- **The slashes at the end of a path** lead nowhere. -/
theorem exists_steps_withoutSlashes (p : FilePath) :
    ∃ behind, (∀ x ∈ behind, x = .stay) ∧
      p.steps = (FileSystem.withoutSlashes p).steps ++ behind := by
  by_cases hp : p = []
  · subst hp
    exact ⟨[], nofun, rfl⟩
  · obtain ⟨slashes, hslashes, hsplit⟩ := p.exists_slashes
    obtain ⟨behind, hbehind, hsteps⟩ :=
      exists_steps_append_slashes (withoutSlashes_ne_nil hp) hslashes
    rw [← hsplit] at hsteps
    exact ⟨behind, hbehind, hsteps⟩

theorem bareSteps_withoutSlashes (p : FilePath) :
    (FileSystem.withoutSlashes p).bareSteps = p.bareSteps := by
  obtain ⟨behind, hbehind, hsteps⟩ := p.exists_steps_withoutSlashes
  have hfilter : behind.filter (· ≠ .stay) = [] :=
    List.filter_eq_nil_iff.2 fun x hx => by rw [hbehind x hx]; decide
  rw [bareSteps, bareSteps, hsteps, List.filter_append, hfilter, List.append_nil]

end FilePath

namespace FileSystem

/-! ### Growing file systems -/

/-- Whether a file system **has a well-formed tree without links**. -/
structure Unlinked (fs : FileSystem) : Prop where
  wellFormed : fs.root.WellFormed
  linkFree : fs.root.LinkFree

/-- Whether a file system has come from another one in which **everything was kept**. -/
structure Grows (fs fs' : FileSystem) : Prop where
  unlinked : fs'.Unlinked
  workingDirectory : fs'.workingDirectory = fs.workingDirectory
  keeps : fs.view.Keeps fs'.view

variable {fs fs' : FileSystem} {p : FilePath}

theorem Unlinked.grows_refl (h : fs.Unlinked) : fs.Grows fs :=
  ⟨h, rfl, .refl _⟩

theorem Grows.trans {fs₁ fs₂ fs₃ : FileSystem} (h : fs₁.Grows fs₂) (h' : fs₂.Grows fs₃) :
    fs₁.Grows fs₃ :=
  ⟨h'.unlinked, h'.workingDirectory.trans h.workingDirectory, h.keeps.trans h'.keeps⟩

theorem Grows.placeOf_eq (h : fs.Grows fs') (p : FilePath) : fs'.placeOf p = fs.placeOf p := by
  rw [placeOf, placeOf, h.workingDirectory]

theorem Grows.way_eq (h : fs.Grows fs') (p : FilePath) : fs'.way p = fs.way p := by
  rw [way, way, h.workingDirectory]

/-- **A path that leads to a directory** keeps doing so. -/
theorem Grows.isDirectory (h : fs.Grows fs') (hfs : fs.Unlinked) (hp : fs.isDirectory p = true) :
    fs'.isDirectory p = true := by
  obtain ⟨htaken, hpassable, hdirectory⟩ := (isDirectory_iff hfs.linkFree).1 hp
  rw [isDirectory_iff h.unlinked.linkFree, h.workingDirectory, h.placeOf_eq]
  exact ⟨htaken, hpassable.of_keeps h.keeps, h.keeps.directory _ hdirectory⟩

/-- **A path that leads to a file** keeps doing so. -/
theorem Grows.isFile (h : fs.Grows fs') (hfs : fs.Unlinked) (hp : fs.isFile p = true) :
    fs'.isFile p = true := by
  obtain ⟨htaken, hpassable, content, hfile⟩ := (isFile_iff hfs.linkFree).1 hp
  rw [isFile_iff h.unlinked.linkFree, h.workingDirectory, h.placeOf_eq]
  exact ⟨htaken, hpassable.of_keeps h.keeps, h.keeps.file _ _ hfile⟩

/-- A view and where paths begin are all there is to a file system without links. -/
theorem Unlinked.eq_of_view_eq (h : fs.Unlinked) (h' : fs'.Unlinked) (hview : fs.view = fs'.view)
    (hworking : fs.workingDirectory = fs'.workingDirectory) : fs = fs' := by
  have hroot := Node.eq_of_view_eq _ _ h.wellFormed h'.wellFormed hview
  cases fs
  cases fs'
  rw [FileSystem.mk.injEq]
  exact ⟨hroot, hworking⟩

/-- What a leaf changes that is put into the tree. -/
theorem view_put {place : Place} {leaf : Node} (hslot : fs.root.IsSlot place)
    (hleaf : leaf.IsLeaf) :
    (fs.put place leaf).view = Function.update fs.view place (some leaf.item) :=
  Node.view_put hslot hleaf

/-! ### Free names -/

/-- Whether a path **ends at a free name** in a directory; if it goes on behind the name, only a
directory can be meant. -/
structure EndsFree (fs : FileSystem) (p : FilePath) (outer : Place) (name : Text)
    (asDirectory : Bool) : Prop where
  isTaken : p.IsTaken
  directory : fs.view outer = some .directory
  free : fs.view (outer ++ [name]) = none
  isName : Node.IsName name
  placeOf_eq : fs.placeOf p = outer ++ [name]
  mem_way : fs.placeOf p ∈ fs.way p
  /-- The path can be gone once something is there that can be meant. -/
  passable : ∀ v, fs.view.Keeps v → v (outer ++ [name]) ≠ none →
    asDirectory = false ∨ v (outer ++ [name]) = some .directory →
    v.Passable fs.workingDirectory p.steps

variable {outer : Place} {name : Text} {asDirectory : Bool} {followLast : Bool}

/-- **A path that leads to a free name** ends there. -/
theorem endsFree_of_resolve (hfs : fs.Unlinked)
    (h : fs.resolve followLast p = .ok (.vacant outer name asDirectory)) :
    fs.EndsFree p outer name asDirectory := by
  obtain ⟨htaken, hsteps⟩ := resolve_eq_ok_iff.1 h
  obtain ⟨before, behind, hsplit, hbehind, has, hpassable, rfl, hdirectory, hsize, hfree⟩ :=
    Node.exists_of_resolveSteps_vacant hfs.linkFree hsteps
  have hfollow : Place.follow fs.workingDirectory (before ++ .down name :: behind)
      = Place.follow fs.workingDirectory before ++ [name] := by
    rw [Place.follow_append, Place.follow_down, Place.follow_of_forall_stay _ hbehind]
  refine ⟨htaken, hdirectory, hfree, (isName_of_resolve h).1, ?_, ?_, ?_⟩
  · rw [placeOf_eq, hsplit, hfollow]
  · refine placeOf_mem_way (List.ne_nil_of_mem (a := .down name) ?_)
    rw [FilePath.bareSteps, hsplit]
    exact List.mem_filter.2 ⟨List.mem_append_right _ List.mem_cons_self, rfl⟩
  -- in a later view the steps before the name lead on as before, and those behind it stay
  · intro v hkeeps hthere hmeant
    rw [hsplit, TreeView.passable_append]
    refine ⟨hpassable.of_keeps hkeeps, hkeeps.directory _ hdirectory, hsize, hthere, ?_⟩
    rcases hmeant with hfile | hv
    · rw [has, Bool.not_eq_false'] at hfile
      rw [List.isEmpty_iff.1 hfile]
      trivial
    · exact TreeView.passable_of_forall_stay hv hbehind

/-- The free name is where a leaf can stand. -/
theorem EndsFree.isSlot (h : fs.EndsFree p outer name asDirectory) :
    fs.root.IsSlot (outer ++ [name]) :=
  .inr ⟨h.free, outer, name, rfl, h.directory⟩

/-- What is put there keeps everything. -/
theorem EndsFree.grows_put (h : fs.EndsFree p outer name asDirectory) (hfs : fs.Unlinked)
    {leaf : Node} (hleaf : leaf.IsLeaf) (hwell : leaf.WellFormed) (hlinks : leaf.LinkFree) :
    fs.Grows (fs.put (outer ++ [name]) leaf) := by
  obtain ⟨entries, hat⟩ := Node.view_eq_directory_iff.1 h.directory
  -- all names on the way are those of nodes, and the last one is free
  have hplace : ∀ other ∈ outer ++ [name], Node.IsName other := by
    intro other hother
    rcases List.mem_append.1 hother with hother | hother
    · exact (Node.wellFormed_of_at? hfs.wellFormed hat).1 other hother
    · exact List.mem_singleton.1 hother ▸ h.isName
  refine ⟨⟨?_, Node.linkFree_put hfs.linkFree hlinks⟩, rfl, ?_⟩
  · exact Node.wellFormed_put hfs.wellFormed hplace hwell
  · rw [view_put h.isSlot hleaf]
    exact TreeView.keeps_update (.inl h.free)

/-! ### Writing -/

theorem wellFormed_file (content : ByteArray) : (Node.file content).WellFormed := by
  rw [Node.WellFormed]
  trivial

theorem linkFree_file (content : ByteArray) : (Node.file content).LinkFree := by
  rw [Node.LinkFree]
  trivial

/-- A file that takes the place of a file keeps everything. -/
theorem grows_put_of_file (hfs : fs.Unlinked) {place : Place} {old : ByteArray}
    (hold : fs.root.at? place = some (.file old)) (content : ByteArray) :
    fs.Grows (fs.put place (.file content)) ∧
      (fs.put place (.file content)).view
        = Function.update fs.view place (some (.file content)) := by
  have hfile : fs.view place = some (.file old) := Node.view_eq_file_iff.2 hold
  have hview := view_put (.inl ⟨old, hfile⟩) (Node.isLeaf_file content)
  refine ⟨⟨⟨?_, Node.linkFree_put hfs.linkFree (linkFree_file content)⟩, rfl, ?_⟩, hview⟩
  · exact Node.wellFormed_put hfs.wellFormed (Node.wellFormed_of_at? hfs.wellFormed hold).1
      (wellFormed_file content)
  · rw [hview]
    exact TreeView.keeps_update (.inr ⟨⟨old, hfile⟩, content, rfl⟩)

/-- **What writing changes**: the view at the place of the path, where there is a file then. -/
theorem write_spec (hfs : fs.Unlinked) {content : ByteArray} (h : fs.write p content = .ok fs') :
    fs.Grows fs' ∧ fs'.view = Function.update fs.view (fs.placeOf p) (some (.file content)) ∧
      fs'.isFile p = true := by
  -- whichever way it was put there, the path leads to the file if it can be gone
  have found (hgrows : fs.Grows fs') (htaken : p.IsTaken)
      (hview : fs'.view = Function.update fs.view (fs.placeOf p) (some (.file content)))
      (hpassable : fs'.view.Passable fs.workingDirectory p.steps) : fs'.isFile p = true := by
    refine (isFile_iff hgrows.unlinked.linkFree).2 ⟨htaken, ?_, content, ?_⟩
    · rw [hgrows.workingDirectory]
      exact hpassable
    · rw [hgrows.placeOf_eq, hview, Function.update_self]
  unfold write at h
  split at h
  · cases h
  · next outer name asDirectory hresolve =>
    split at h
    · cases h
    · next hfile =>
      obtain rfl : asDirectory = false := Bool.eq_false_iff.2 hfile
      obtain rfl := Except.ok.inj h
      have hends := endsFree_of_resolve hfs hresolve
      have hgrows := hends.grows_put hfs (Node.isLeaf_file content) (wellFormed_file content)
        (linkFree_file content)
      have hview := view_put hends.isSlot (Node.isLeaf_file content)
      refine ⟨hgrows, hends.placeOf_eq ▸ hview, found hgrows hends.isTaken
        (hends.placeOf_eq ▸ hview) ?_⟩
      refine hends.passable _ hgrows.keeps ?_ (.inl rfl)
      rw [hview, Function.update_self]
      exact nofun
  · next place hresolve =>
    obtain ⟨htaken, hpassable, rfl⟩ := (resolve_eq_present_iff hfs.linkFree).1 hresolve
    split at h
    · next old hold =>
      obtain rfl := Except.ok.inj h
      obtain ⟨hgrows, hview⟩ := grows_put_of_file hfs hold content
      exact ⟨hgrows, hview, found hgrows htaken hview (hpassable.of_keeps hgrows.keeps)⟩
    · cases h

/-- Where a file is, one can be written. -/
theorem exists_write (hfs : fs.Unlinked) (h : fs.isFile p = true) (content : ByteArray) :
    ∃ fs', fs.write p content = .ok fs' := by
  obtain ⟨htaken, hpassable, old, hfile⟩ := (isFile_iff hfs.linkFree).1 h
  exact ⟨_, write_of_present ((resolve_eq_present_iff hfs.linkFree).2 ⟨htaken, hpassable, rfl⟩)
    (Node.view_eq_file_iff.1 hfile)⟩

/-! ### Copying -/

/-- What copying comes to: the target is emptied, and then what is at the source is written. -/
theorem copy_eq_ok {source target : FilePath} (h : fs.copy source target = .ok fs') :
    ∃ place content emptied, fs.find source = .ok (place, .file content) ∧
      fs.write target .empty = .ok emptied ∧
      ((∃ other, emptied.root.at? place = some (.file other) ∧
          emptied.write target other = .ok fs') ∨
        (∀ other, emptied.root.at? place ≠ some (.file other)) ∧ fs' = emptied) := by
  unfold copy at h
  split at h
  · cases h
  · next place content hfind =>
    split at h
    · cases h
    · next emptied hemptied =>
      refine ⟨place, content, emptied, hfind, hemptied, ?_⟩
      -- the source is read again once the target is empty, since it may be the same file
      split at h
      · next other hother => exact .inl ⟨other, hother, h⟩
      · next hnone => exact .inr ⟨hnone, (Except.ok.inj h).symm⟩
  · cases h

/-- **A copy that is made** keeps everything, and both paths lead to files then. -/
theorem grows_of_copy (hfs : fs.Unlinked) {source target : FilePath}
    (h : fs.copy source target = .ok fs') :
    fs.Grows fs' ∧ fs'.isFile source = true ∧ fs'.isFile target = true := by
  obtain ⟨place, content, emptied, hfind, hemptied, hcopied⟩ := copy_eq_ok h
  have hsource : fs.isFile source = true := by
    rw [isFile, hfind]
    rfl
  obtain ⟨hgrows, -, htarget⟩ := write_spec hfs hemptied
  rcases hcopied with ⟨other, -, hwrite⟩ | ⟨-, rfl⟩
  · obtain ⟨hgrows', -, htarget'⟩ := write_spec hgrows.unlinked hwrite
    exact ⟨hgrows.trans hgrows', (hgrows.trans hgrows').isFile hfs hsource, htarget'⟩
  · exact ⟨hgrows, hgrows.isFile hfs hsource, htarget⟩

/-- **What copying changes**: at the place of the target there is what is at the source, if that
stands elsewhere. -/
theorem view_of_copy (hfs : fs.Unlinked) {source target : FilePath}
    (hne : fs.placeOf source ≠ fs.placeOf target) (h : fs.copy source target = .ok fs') :
    fs'.view = Function.update fs.view (fs.placeOf target) (fs.view (fs.placeOf source)) := by
  obtain ⟨place, content, emptied, hfind, hemptied, hcopied⟩ := copy_eq_ok h
  obtain ⟨-, -, rfl, hat⟩ := (find_eq_ok_iff hfs.linkFree).1 hfind
  have hfile : fs.view (fs.placeOf source) = some (.file content) := Node.view_eq_file_iff.2 hat
  obtain ⟨hgrows, hview, -⟩ := write_spec hfs hemptied
  -- emptying the target leaves the source as it is
  have hstill : emptied.root.at? (fs.placeOf source) = some (.file content) := by
    refine Node.view_eq_file_iff.1 ?_
    change emptied.view _ = _
    rw [hview, Function.update_of_ne hne, hfile]
  rcases hcopied with ⟨other, hother, hwrite⟩ | ⟨hnone, -⟩
  · obtain rfl := Node.file.inj (Option.some.inj (hstill.symm.trans hother))
    obtain ⟨-, hview', -⟩ := write_spec hgrows.unlinked hwrite
    rw [hview', hview, hgrows.placeOf_eq, Function.update_idem, hfile]
  · exact absurd hstill (hnone content)

/-- Where files are at both paths, the one can be copied over the other. -/
theorem exists_copy (hfs : fs.Unlinked) {source target : FilePath}
    (hsource : fs.isFile source = true)
    (htarget : fs.isFile target = true) : ∃ fs', fs.copy source target = .ok fs' := by
  obtain ⟨htaken, hpassable, content, hfile⟩ := (isFile_iff hfs.linkFree).1 hsource
  have hfind := (find_eq_ok_iff hfs.linkFree).2
    ⟨htaken, hpassable, rfl, Node.view_eq_file_iff.1 hfile⟩
  -- the target is emptied first, and then written, which succeeds as it did before
  obtain ⟨emptied, hemptied⟩ := exists_write hfs htarget .empty
  obtain ⟨hgrows, -, hstill⟩ := write_spec hfs hemptied
  rw [copy, hfind]
  simp only [hemptied]
  split
  · exact exists_write hgrows.unlinked hstill _
  · exact ⟨emptied, rfl⟩

/-! ### Making directories -/

theorem wellFormed_emptyDirectory : Node.emptyDirectory.WellFormed :=
  Node.wellFormed_directory_iff.2 ⟨.nil, nofun⟩

theorem linkFree_emptyDirectory : Node.emptyDirectory.LinkFree :=
  Node.linkFree_directory_iff.2 nofun

theorem isTaken_of_withoutSlashes (h : (withoutSlashes p).IsTaken)
    (hsize : ¬ (maxPathSize < p.size ∧ '\x00' ∉ p)) : p.IsTaken := by
  obtain ⟨slashes, hslashes, hsplit⟩ := p.exists_slashes
  have hnul : '\x00' ∉ p := by
    rw [hsplit, List.mem_append, not_or]
    exact ⟨h.nul, fun hmem => absurd (hslashes _ hmem) (by decide)⟩
  refine ⟨hnul, ?_, Nat.not_lt.1 fun hlt => hsize ⟨hlt, hnul⟩⟩
  rw [hsplit]
  exact List.append_ne_nil_of_left_ne_nil h.ne_nil _

theorem FilePath.IsTaken.withoutSlashes (h : FilePath.IsTaken p) :
    FilePath.IsTaken (withoutSlashes p) := by
  obtain ⟨slashes, -, hsplit⟩ := p.exists_slashes
  refine ⟨fun hmem => h.nul ?_, FilePath.withoutSlashes_ne_nil h.ne_nil, ?_⟩
  · rw [hsplit]
    exact List.mem_append_left _ hmem
  · have hsize := h.size
    rw [hsplit, Text.size_append] at hsize
    omega

/-- **What making one directory changes**: the view at the place of the path, where nothing was. -/
theorem makeDirectory_spec (hfs : fs.Unlinked) (h : fs.makeDirectory p = .ok fs') :
    fs.Grows fs' ∧ fs.view (fs.placeOf p) = none ∧ fs.placeOf p ∈ fs.way p ∧
      fs'.view = Function.update fs.view (fs.placeOf p) (some .directory) ∧
      fs'.isDirectory p = true := by
  obtain ⟨behind, hbehind, hsteps⟩ := p.exists_steps_withoutSlashes
  have hplace : fs.placeOf (withoutSlashes p) = fs.placeOf p := by
    rw [placeOf, placeOf, p.bareSteps_withoutSlashes]
  have hway : fs.way (withoutSlashes p) = fs.way p := by
    rw [way, way, p.bareSteps_withoutSlashes]
  unfold makeDirectory at h
  split at h
  · cases h
  · next hsize =>
    split at h
    · cases h
    · cases h
    · next outer name asDirectory hresolve =>
      split at h
      · cases h
      · obtain rfl := Except.ok.inj h
        -- the path without its last slashes ends at a free name, and there the new directory stands
        have hends := endsFree_of_resolve hfs hresolve
        have hgrows := hends.grows_put hfs Node.isLeaf_emptyDirectory wellFormed_emptyDirectory
          linkFree_emptyDirectory
        have hview := view_put hends.isSlot Node.isLeaf_emptyDirectory
        have hthere : (fs.put (outer ++ [name]) .emptyDirectory).view (outer ++ [name])
            = some .directory := by
          rw [hview, Function.update_self]
          rfl
        rw [← hplace, ← hway, hends.placeOf_eq]
        refine ⟨hgrows, hends.free, hends.placeOf_eq ▸ hends.mem_way, hview, ?_⟩
        refine (isDirectory_iff hgrows.unlinked.linkFree).2
          ⟨isTaken_of_withoutSlashes hends.isTaken hsize, ?_, ?_⟩
        -- the slashes at the end lead nowhere else now that there is a directory
        · have hsome :
              (fs.put (outer ++ [name]) .emptyDirectory).view (outer ++ [name]) ≠ none := by
            rw [hthere]
            exact Option.some_ne_none _
          have hpassable := hends.passable _ hgrows.keeps hsome (.inr hthere)
          rw [hsteps, TreeView.passable_append]
          refine ⟨hpassable, TreeView.passable_of_forall_stay ?_ hbehind⟩
          have hfollow := hends.placeOf_eq
          rw [placeOf_eq] at hfollow
          rw [hgrows.workingDirectory, hfollow]
          exact hthere
        · rw [hgrows.placeOf_eq, ← hplace, hends.placeOf_eq]
          exact hthere

/-- The way to the parent of a path is on the way of the path. -/
theorem mem_way_of_parent {parent : FilePath} (h : p.parent? = some parent) {place : Place}
    (hplace : place ∈ fs.way parent) : place ∈ fs.way p := by
  obtain ⟨steps, hsteps, hne, hfollow⟩ := mem_way_iff.1 hplace
  rw [FilePath.bareSteps_of_parent?_eq_some h] at hsteps
  exact mem_way_iff.2 ⟨steps, hsteps.trans (List.dropLast_prefix _), hne, hfollow⟩

/-- Whether one view comes from another by **new directories at some places**. -/
def AddsDirectories (places : List Place) (v v' : TreeView) : Prop :=
  ∀ place, v' place = v place ∨
    v place = none ∧ v' place = some .directory ∧ place ∈ places

theorem AddsDirectories.trans {places : List Place} {v₁ v₂ v₃ : TreeView}
    (h : AddsDirectories places v₁ v₂) (h' : AddsDirectories places v₂ v₃) :
    AddsDirectories places v₁ v₃ := by
  intro place
  rcases h' place with heq | ⟨hnone, hdirectory, hmem⟩
  · rw [heq]
    exact h place
  · refine (h place).elim (fun heq => .inr ⟨heq ▸ hnone, hdirectory, hmem⟩) fun hadded => ?_
    rw [hadded.2.1] at hnone
    cases hnone

theorem AddsDirectories.mono {places more : List Place} {v v' : TreeView} (hmore : places ⊆ more)
    (h : AddsDirectories places v v') : AddsDirectories more v v' :=
  fun place => (h place).imp_right (And.imp_right (And.imp_right (@hmore place)))

theorem addsDirectories_of_makeDirectory (hfs : fs.Unlinked) (h : fs.makeDirectory p = .ok fs') :
    AddsDirectories (fs.way p) fs.view fs'.view := by
  obtain ⟨-, hnone, hway, hview, -⟩ := makeDirectory_spec hfs h
  intro place
  rw [hview]
  by_cases heq : place = fs.placeOf p
  · subst heq
    exact .inr ⟨hnone, Function.update_self .., hway⟩
  · exact .inl (Function.update_of_ne heq ..)

/-- Making directories that succeeds makes those on the way that are missing, and the path leads to
a directory then. -/
theorem grows_of_makeDirectories (hfs : fs.Unlinked) (h : fs.makeDirectories p = (fs', none)) :
    fs.Grows fs' ∧ (p ≠ [] → fs'.isDirectory p = true) ∧
      AddsDirectories (fs.way p) fs.view fs'.view := by
  fun_induction FileSystem.makeDirectories fs p generalizing fs' with
  | case1 p hp =>
    obtain ⟨rfl, -⟩ := Prod.mk.inj h
    exact ⟨hfs.grows_refl, fun hne => absurd (List.isEmpty_iff.1 hp) hne, fun _ => .inl rfl⟩
  | case2 p hp made hmade =>
    obtain ⟨rfl, -⟩ := Prod.mk.inj h
    obtain ⟨hgrows, -, -, -, hdirectory⟩ := makeDirectory_spec hfs hmade
    exact ⟨hgrows, fun _ => hdirectory, addsDirectories_of_makeDirectory hfs hmade⟩
  | case3 => cases (Prod.mk.inj h).2
  | case4 => cases (Prod.mk.inj h).2
  -- the directories in front are made first, and then the one that the path leads to
  | case5 p hp hfound parent hparent made hmade all hall ih =>
    obtain ⟨rfl, -⟩ := Prod.mk.inj h
    obtain ⟨hgrows, -, hadds⟩ := ih hmade
    obtain ⟨hgrows', -, -, -, hdirectory⟩ := makeDirectory_spec hgrows.unlinked hall
    have hadds' := addsDirectories_of_makeDirectory hgrows.unlinked hall
    rw [hgrows.way_eq] at hadds'
    exact ⟨hgrows.trans hgrows', fun _ => hdirectory,
      (hadds.mono fun _ => mem_way_of_parent hparent).trans hadds'⟩
  -- if it is there by then, it counts as made, provided that it is a directory
  | case6 p hp hfound parent hparent made hmade e he ih =>
    obtain ⟨rfl, hfault⟩ := Prod.mk.inj h
    obtain ⟨hgrows, -, hadds⟩ := ih hmade
    refine ⟨hgrows, fun _ => ?_, hadds.mono fun _ => mem_way_of_parent hparent⟩
    split at hfault
    · next hdirectory => exact hdirectory
    · cases hfault
  | case7 p hp e hne he =>
    obtain ⟨rfl, hfault⟩ := Prod.mk.inj h
    refine ⟨hfs.grows_refl, fun _ => ?_, fun _ => .inl rfl⟩
    split at hfault
    · next hdirectory => exact hdirectory
    · cases hfault

/-- **What making directories changes**: where nothing was on the way, directories are then. -/
theorem makeDirectories_spec (hfs : fs.Unlinked) (h : fs.makeDirectories p = (fs', none)) :
    fs.Grows fs' ∧ (p = [] ∨ fs'.isDirectory p = true) ∧
      fs'.view = fs.view.onto (.directories (fs.way p)) ∧
      ∀ place ∈ fs.way p, fs'.view place = some .directory := by
  obtain ⟨hgrows, hdirectory, hadds⟩ := grows_of_makeDirectories hfs h
  have hway : ∀ place ∈ fs.way p, fs'.view place = some .directory := by
    intro place hmem
    have hne : p ≠ [] := by
      rintro rfl
      cases hmem
    exact view_of_mem_way hgrows.unlinked.linkFree (hdirectory hne) (hgrows.way_eq p ▸ hmem)
  refine ⟨hgrows, or_iff_not_imp_left.2 hdirectory, funext fun place => ?_, hway⟩
  rw [TreeView.onto]
  -- off the way nothing has changed; on the way, what was there was a directory
  by_cases hmem : place ∈ fs.way p
  · rw [TreeView.directories_of_mem hmem, hway place hmem]
    rcases hadds place with heq | ⟨hnone, -, -⟩
    · rw [← heq, hway place hmem]
      rfl
    · rw [hnone]
      rfl
  · rw [TreeView.directories_of_notMem hmem, Option.or_none]
    exact (hadds place).resolve_right fun hadded => hmem hadded.2.2

/-- Where directories are, making them does nothing. -/
theorem makeDirectories_of_isDirectory (hfs : fs.Unlinked)
    (h : p = [] ∨ fs.isDirectory p = true) : fs.makeDirectories p = (fs, none) := by
  rcases h with rfl | h
  · rw [makeDirectories]
    rfl
  · obtain ⟨htaken, hpassable, -⟩ := (isDirectory_iff hfs.linkFree).1 h
    obtain ⟨behind, -, hsteps⟩ := p.exists_steps_withoutSlashes
    rw [hsteps, TreeView.passable_append] at hpassable
    have hresolve : fs.resolve false (withoutSlashes p)
        = .ok (.present (fs.placeOf (withoutSlashes p))) :=
      (resolve_eq_present_iff hfs.linkFree).2
        ⟨FilePath.IsTaken.withoutSlashes htaken, hpassable.1, rfl⟩
    -- the directory exists, which is no fault here
    have hmake : fs.makeDirectory p = .error .alreadyExists := by
      rw [makeDirectory, if_neg fun hsize => Nat.not_lt.2 htaken.size hsize.1, hresolve]
    have hne : p.isEmpty = false := List.isEmpty_eq_false_iff.2 htaken.ne_nil
    rw [makeDirectories, hne, if_neg Bool.false_ne_true]
    split
    · next made hmade =>
      rw [hmake] at hmade
      cases hmade
    · next hfound =>
      rw [hmake] at hfound
      cases hfound
    · rw [h]
      rfl

end FileSystem

end Stencil
