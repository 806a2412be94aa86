import Mathlib.Data.List.Infix
import Stencil.Proofs.File.View

/-!
# Paths in trees without links

Where no link stands in the way, a path leads where its steps lead by their spelling
(`FileSystem.placeOf`), if it leads anywhere; and whether it does can be seen from what stands on
the way. So a path that leads to a directory or a file keeps doing so as long as nothing is taken
away.

* `TreeView.Passable` — that some steps can be gone, by what stands at the places on the way;
* `Node.resolveSteps_eq_present_iff`, `Node.exists_of_resolveSteps_vacant` — looking up steps ends
  at a node if all of them can be gone, or else at a name that is free in a directory;
* `FileSystem.isDirectory_iff`, `FileSystem.isFile_iff` — what it means for a path to lead to a
  directory or a file;
* `FileSystem.view_of_mem_way` — the places on the way to a directory are directories.
-/

namespace Stencil

/-! ### Where steps lead -/

/-- **Where some steps lead** from a place, by their spelling. -/
def Place.follow (here : Place) (steps : List Step) : Place :=
  (Spot.follow ⟨true, 0, here⟩ steps).names

namespace Place

theorem spot_follow (here : Place) (steps : List Step) :
    Spot.follow ⟨true, 0, here⟩ steps = ⟨true, 0, here.follow steps⟩ := by
  obtain ⟨habsolute, hups⟩ := Spot.ups_follow_of_absolute (s := ⟨true, 0, here⟩) rfl rfl steps
  rw [follow]
  generalize Spot.follow ⟨true, 0, here⟩ steps = s at habsolute hups
  obtain ⟨absolute, ups, names⟩ := s
  obtain rfl : absolute = true := habsolute
  obtain rfl : ups = 0 := hups
  rfl

@[simp] theorem follow_nil (here : Place) : here.follow [] = here := rfl

@[simp] theorem follow_stay (here : Place) (rest : List Step) :
    here.follow (.stay :: rest) = here.follow rest := rfl

@[simp] theorem follow_up (here : Place) (rest : List Step) :
    here.follow (.up :: rest) = follow here.dropLast rest := by
  have hup : Spot.up ⟨true, 0, here⟩ = ⟨true, 0, here.dropLast⟩ := by
    unfold Spot.up
    split
    · next hnil =>
      rw [if_pos rfl]
      obtain rfl : here = [] := hnil
      rfl
    · rfl
  change (Spot.follow (Spot.up ⟨true, 0, here⟩) rest).names = _
  rw [hup]
  rfl

@[simp] theorem follow_down (here : Place) (name : Text) (rest : List Step) :
    here.follow (.down name :: rest) = follow (here ++ [name]) rest := rfl

theorem follow_append (here : Place) (a b : List Step) :
    here.follow (a ++ b) = (here.follow a).follow b := by
  rw [follow, Spot.follow_append, spot_follow]
  rfl

theorem follow_map_down (here : Place) (names : List Text) :
    here.follow (names.map .down) = here ++ names := by
  rw [follow, Spot.follow_map_down]
  rfl

/-- Steps to nowhere lead nowhere. -/
theorem follow_of_forall_stay (here : Place) {steps : List Step} (h : ∀ x ∈ steps, x = .stay) :
    here.follow steps = here := by
  induction steps with
  | nil => rfl
  | cons x steps ih =>
    obtain ⟨rfl, hsteps⟩ := List.forall_mem_cons.1 h
    exact ih hsteps

/-- Steps to nowhere do not count. -/
theorem follow_filter (here : Place) (steps : List Step) :
    here.follow (steps.filter (· ≠ .stay)) = here.follow steps := by
  induction steps generalizing here with
  | nil => rfl
  | cons x steps ih =>
    cases x with
    | stay => exact ih here
    | top => exact ih []
    | down name => exact ih (here ++ [name])
    | up =>
      have hfilter : (Step.up :: steps).filter (· ≠ .stay) = .up :: steps.filter (· ≠ .stay) := rfl
      rw [hfilter, follow_up, follow_up, ih]

end Place

/-! ### Steps that can be gone -/

namespace TreeView

/-- Whether some steps **can be gone** from a place: only directories are left, and one gets down to
names that are there and not too long. -/
def Passable (v : TreeView) : Place → List Step → Prop
  | _, [] => True
  | _, .top :: rest => v.Passable [] rest
  | here, .stay :: rest => v here = some .directory ∧ v.Passable here rest
  | here, .up :: rest => v here = some .directory ∧ v.Passable here.dropLast rest
  | here, .down name :: rest =>
    v here = some .directory ∧ name.size ≤ maxNameSize ∧ v (here ++ [name]) ≠ none ∧
      v.Passable (here ++ [name]) rest

variable {v : TreeView} {here : Place}

theorem passable_append {a b : List Step} :
    v.Passable here (a ++ b) ↔ v.Passable here a ∧ v.Passable (here.follow a) b := by
  induction a generalizing here with
  | nil => exact (and_iff_right trivial).symm
  | cons x a ih =>
    cases x with
    | top => exact ih
    | stay => rw [List.cons_append, Passable, Passable, ih, and_assoc, Place.follow_stay]
    | up => rw [List.cons_append, Passable, Passable, ih, and_assoc, Place.follow_up]
    | down name =>
      rw [List.cons_append, Passable, Passable, ih, Place.follow_down, and_assoc, and_assoc,
        and_assoc]

/-- Without the steps to nowhere, the others can still be gone. -/
theorem Passable.filter {steps : List Step} (h : v.Passable here steps) :
    v.Passable here (steps.filter (· ≠ .stay)) := by
  induction steps generalizing here with
  | nil => exact h
  | cons x steps ih =>
    cases x with
    | top => exact ih h
    | stay => exact ih h.2
    | up => exact ⟨h.1, ih h.2⟩
    | down name => exact ⟨h.1, h.2.1, h.2.2.1, ih h.2.2.2⟩

/-- Steps to nowhere can be gone from a directory. -/
theorem passable_of_forall_stay {steps : List Step} (hdirectory : v here = some .directory)
    (h : ∀ x ∈ steps, x = .stay) : v.Passable here steps := by
  induction steps with
  | nil => trivial
  | cons x steps ih =>
    obtain ⟨rfl, hsteps⟩ := List.forall_mem_cons.1 h
    exact ⟨hdirectory, ih hsteps⟩

/-- Any step but that to the top leaves a directory. -/
theorem Passable.directory_of_cons {x : Step} {rest : List Step} (hx : x ≠ .top)
    (h : v.Passable here (x :: rest)) : v here = some .directory := by
  cases x with
  | top => exact absurd rfl hx
  | stay => exact h.1
  | up => exact h.1
  | down name => exact h.1

/-! ### What is kept -/

/-- Whether everything **is kept**, from one view to another: files may get other bytes, and there
may be more. -/
structure Keeps (v v' : TreeView) : Prop where
  directory : ∀ place, v place = some .directory → v' place = some .directory
  file : ∀ place content, v place = some (.file content) → ∃ other, v' place = some (.file other)
  present : ∀ place, v place ≠ none → v' place ≠ none

theorem Keeps.refl (v : TreeView) : v.Keeps v :=
  ⟨fun _ h => h, fun _ content h => ⟨content, h⟩, fun _ h => h⟩

theorem Keeps.trans {v₁ v₂ v₃ : TreeView} (h : v₁.Keeps v₂) (h' : v₂.Keeps v₃) : v₁.Keeps v₃ where
  directory place hv := h'.directory place (h.directory place hv)
  file place content hv := by
    obtain ⟨other, hother⟩ := h.file place content hv
    exact h'.file place other hother
  present place hv := h'.present place (h.present place hv)

/-- What can be gone can be gone as long as everything is kept. -/
theorem Passable.of_keeps {v' : TreeView} (hkeeps : v.Keeps v') {steps : List Step}
    (h : v.Passable here steps) : v'.Passable here steps := by
  induction steps generalizing here with
  | nil => exact h
  | cons x steps ih =>
    cases x with
    | top => exact ih h
    | stay => exact ⟨hkeeps.directory _ h.1, ih h.2⟩
    | up => exact ⟨hkeeps.directory _ h.1, ih h.2⟩
    | down name => exact ⟨hkeeps.directory _ h.1, h.2.1, hkeeps.present _ h.2.2.1, ih h.2.2.2⟩

end TreeView

/-! ### Looking up steps -/

namespace Node

variable {root : Node} {followLast : Bool} {links : Nat} {here : Place} {steps : List Step}

/-- What stands at a name of a directory. -/
theorem view_concat {entries : List (Text × Node)} (h : root.at? here = some (.directory entries))
    (name : Text) : root.view (here ++ [name]) = (NameMap.find? name entries).map item := by
  rw [view_append h, view_cons]
  change (NameMap.find? name entries).bind _ = _
  cases NameMap.find? name entries with
  | none => rfl
  | some child => rfl

/-- One step down in a tree without links: to a node, or to a free name. -/
theorem resolveSteps_down (hlinks : root.LinkFree) {entries : List (Text × Node)}
    (h : root.at? here = some (.directory entries)) {name : Text}
    (hsize : name.size ≤ maxNameSize) :
    root.resolveSteps followLast links here (.down name :: steps)
      = if root.view (here ++ [name]) = none then
          if steps.all (· = .stay) then .ok (.vacant here name (!steps.isEmpty))
          else .error .notFound
        else root.resolveSteps followLast links (here ++ [name]) steps := by
  rw [resolveSteps, view_concat h]
  have hentries : root.entriesAt? here = some entries := by
    rw [entriesAt?, h]
    rfl
  simp only [hentries, if_neg (Nat.not_lt.2 hsize)]
  -- the name is free, or leads to an entry, which is no link
  cases hfind : NameMap.find? name entries with
  | none => rfl
  | some child =>
    cases child with
    | file content => rfl
    | directory entries => rfl
    | link target =>
      have hview := view_concat h name
      rw [hfind] at hview
      exact absurd hview (view_ne_link hlinks _ target)

section

variable {r : Resolved}

/-- A step to nowhere stays at a directory. -/
theorem resolveSteps_stay_eq_ok_iff :
    root.resolveSteps followLast links here (.stay :: steps) = .ok r ↔
      root.view here = some .directory ∧ root.resolveSteps followLast links here steps = .ok r := by
  rw [resolveSteps, ← isSome_entriesAt?_iff]
  split
  · next hsome => exact (and_iff_right hsome).symm
  · next hnone =>
    refine ⟨fun h => ?_, fun h => absurd h.1 hnone⟩
    cases h

/-- A step up leaves a directory. -/
theorem resolveSteps_up_eq_ok_iff :
    root.resolveSteps followLast links here (.up :: steps) = .ok r ↔
      root.view here = some .directory ∧
        root.resolveSteps followLast links here.dropLast steps = .ok r := by
  rw [resolveSteps, ← isSome_entriesAt?_iff]
  split
  · next hsome => exact (and_iff_right hsome).symm
  · next hnone =>
    refine ⟨fun h => ?_, fun h => absurd h.1 hnone⟩
    cases h

/-- A step down that does not fail leaves a directory by a name that is not too long. -/
theorem resolveSteps_down_ne_ok {name : Text}
    (h : ¬ (root.view here = some .directory ∧ name.size ≤ maxNameSize)) :
    root.resolveSteps followLast links here (.down name :: steps) ≠ .ok r := by
  intro hok
  rw [resolveSteps] at hok
  split at hok
  · cases hok
  · next entries hentries =>
    have hdirectory := isSome_entriesAt?_iff.1 (Option.isSome_of_eq_some hentries)
    rw [if_pos (Nat.not_le.1 fun hsize => h ⟨hdirectory, hsize⟩)] at hok
    cases hok

/-- **A step down** in a tree without links comes to a free name, behind which there are only steps
to nowhere, or to a node, from which the others go on. -/
theorem resolveSteps_down_eq_ok_iff (hlinks : root.LinkFree) {name : Text} :
    root.resolveSteps followLast links here (.down name :: steps) = .ok r ↔
      (root.view here = some .directory ∧ name.size ≤ maxNameSize) ∧
        (root.view (here ++ [name]) = none ∧ (∀ x ∈ steps, x = .stay) ∧
            r = .vacant here name (!steps.isEmpty) ∨
          root.view (here ++ [name]) ≠ none ∧
            root.resolveSteps followLast links (here ++ [name]) steps = .ok r) := by
  by_cases hleaves : root.view here = some .directory ∧ name.size ≤ maxNameSize
  · obtain ⟨entries, hat⟩ := view_eq_directory_iff.1 hleaves.1
    rw [and_iff_right hleaves, resolveSteps_down hlinks hat hleaves.2]
    by_cases hnone : root.view (here ++ [name]) = none
    · rw [if_pos hnone, or_iff_left fun h => h.1 hnone, and_iff_right hnone]
      split
      · next hstay =>
        -- behind a free name only steps to nowhere are taken
        refine ⟨fun h => ⟨fun x hx => ?_, (Except.ok.inj h).symm⟩, fun h => congrArg _ h.2.symm⟩
        exact of_decide_eq_true (List.all_eq_true.1 hstay x hx)
      · next hstay =>
        refine ⟨fun h => ?_, fun h => absurd (List.all_eq_true.2 fun x hx => ?_) hstay⟩
        · cases h
        · exact decide_eq_true (h.1 x hx)
    · rw [if_neg hnone, or_iff_right fun h => hnone h.1, and_iff_right hnone]
  · exact iff_of_false (resolveSteps_down_ne_ok hleaves) fun h => hleaves h.1

end

/-- **Steps that can be gone lead to a node**, and no other ones do. -/
theorem resolveSteps_eq_present_iff (hlinks : root.LinkFree) {place : Place} :
    root.resolveSteps followLast links here steps = .ok (.present place) ↔
      root.view.Passable here steps ∧ place = here.follow steps := by
  induction steps generalizing here with
  | nil =>
    rw [resolveSteps, Place.follow_nil]
    exact ⟨fun h => ⟨trivial, (Resolved.present.inj (Except.ok.inj h)).symm⟩, fun h => by rw [h.2]⟩
  | cons x steps ih =>
    cases x with
    | top =>
      rw [resolveSteps, ih]
      rfl
    | stay => rw [resolveSteps_stay_eq_ok_iff, ih, Place.follow_stay, TreeView.Passable, and_assoc]
    | up => rw [resolveSteps_up_eq_ok_iff, ih, Place.follow_up, TreeView.Passable, and_assoc]
    | down name =>
      rw [resolveSteps_down_eq_ok_iff hlinks, or_iff_right, ih, Place.follow_down,
        TreeView.Passable]
      · simp only [and_assoc]
      · -- a free name is no node
        rintro ⟨-, -, h⟩
        cases h

/-- **Steps that end at a free name** go to a directory, down to that name, and then nowhere. -/
theorem exists_of_resolveSteps_vacant (hlinks : root.LinkFree) {outer : Place} {name : Text}
    {asDirectory : Bool}
    (h : root.resolveSteps followLast links here steps = .ok (.vacant outer name asDirectory)) :
    ∃ before behind, steps = before ++ .down name :: behind ∧ (∀ x ∈ behind, x = .stay) ∧
      asDirectory = !behind.isEmpty ∧ root.view.Passable here before ∧
      outer = here.follow before ∧ root.view outer = some .directory ∧
      name.size ≤ maxNameSize ∧ root.view (outer ++ [name]) = none := by
  induction steps generalizing here with
  | nil =>
    rw [resolveSteps] at h
    cases h
  | cons x steps ih =>
    cases x with
    | top =>
      rw [resolveSteps] at h
      obtain ⟨before, behind, rfl, hrest⟩ := ih h
      exact ⟨.top :: before, behind, rfl, hrest⟩
    | stay =>
      obtain ⟨hdirectory, h⟩ := resolveSteps_stay_eq_ok_iff.1 h
      obtain ⟨before, behind, rfl, hbehind, has, hpassable, hrest⟩ := ih h
      exact ⟨.stay :: before, behind, rfl, hbehind, has, ⟨hdirectory, hpassable⟩, hrest⟩
    | up =>
      obtain ⟨hdirectory, h⟩ := resolveSteps_up_eq_ok_iff.1 h
      obtain ⟨before, behind, rfl, hbehind, has, hpassable, houter, hrest⟩ := ih h
      refine ⟨.up :: before, behind, rfl, hbehind, has, ⟨hdirectory, hpassable⟩, ?_, hrest⟩
      rw [houter, Place.follow_up]
    | down other =>
      -- the name is the free one, or the steps go on below it
      obtain ⟨⟨hdirectory, hsize⟩, ⟨hnone, hstay, heq⟩ | ⟨hsome, h⟩⟩ :=
        (resolveSteps_down_eq_ok_iff hlinks).1 h
      · obtain ⟨rfl, rfl, rfl⟩ := Resolved.vacant.inj heq
        exact ⟨[], steps, rfl, hstay, rfl, trivial, rfl, hdirectory, hsize, hnone⟩
      · obtain ⟨before, behind, rfl, hbehind, has, hpassable, hrest⟩ := ih h
        exact ⟨.down other :: before, behind, rfl, hbehind, has,
          ⟨hdirectory, hsize, hsome, hpassable⟩, hrest⟩

end Node

/-! ### Looking up paths -/

/-- Whether a path **is one that the system takes**, whatever is there. -/
structure FilePath.IsTaken (p : FilePath) : Prop where
  nul : '\x00' ∉ p
  ne_nil : p ≠ []
  size : p.size ≤ maxPathSize

namespace FileSystem

/-- **What stands at each place** of a file system. -/
def view (fs : FileSystem) : TreeView :=
  fs.root.view

/-- **The place that a path leads to**, by its spelling. -/
def placeOf (fs : FileSystem) (p : FilePath) : Place :=
  Place.follow fs.workingDirectory p.bareSteps

/-- The places on the way along a path, with the one that it leads to. -/
def way (fs : FileSystem) (p : FilePath) : List Place :=
  (p.bareSteps.inits.filter (· ≠ [])).map (Place.follow fs.workingDirectory)

theorem mem_way_iff {fs : FileSystem} {p : FilePath} {place : Place} :
    place ∈ fs.way p ↔ ∃ steps, steps <+: p.bareSteps ∧ steps ≠ [] ∧
      Place.follow fs.workingDirectory steps = place := by
  simp only [way, List.mem_map, List.mem_filter, List.mem_inits, decide_eq_true_iff, and_assoc]

theorem placeOf_mem_way {fs : FileSystem} {p : FilePath} (h : p.bareSteps ≠ []) :
    fs.placeOf p ∈ fs.way p :=
  mem_way_iff.2 ⟨p.bareSteps, List.prefix_rfl, h, rfl⟩

theorem placeOf_eq (fs : FileSystem) (p : FilePath) :
    fs.placeOf p = Place.follow fs.workingDirectory p.steps :=
  Place.follow_filter ..

variable {fs : FileSystem} {p : FilePath}

/-- What is looked up are the steps of a path, if the system takes it. -/
theorem resolve_eq_ok_iff {followLast : Bool} {r : Resolved} :
    fs.resolve followLast p = .ok r ↔
      p.IsTaken ∧ fs.root.resolveSteps followLast maxLinks fs.workingDirectory p.steps = .ok r := by
  unfold resolve
  split
  · next hnul =>
    refine iff_of_false nofun fun h => h.1.nul ?_
    exact List.contains_iff_mem.1 hnul
  · next hnul =>
    -- three checks come before the steps, each a condition of paths that are taken
    split
    · next hnil => exact iff_of_false nofun fun h => h.1.ne_nil (List.isEmpty_iff.1 hnil)
    · next hnil =>
      split
      · next hsize => exact iff_of_false nofun fun h => Nat.not_lt.2 h.1.size hsize
      · next hsize =>
        refine (and_iff_right ⟨fun hmem => hnul ?_, fun heq => hnil ?_, Nat.not_lt.1 hsize⟩).symm
        · exact List.contains_iff_mem.2 hmem
        · exact List.isEmpty_iff.2 heq

section LinkFree

variable (hlinks : fs.root.LinkFree)
include hlinks

theorem resolve_eq_present_iff {followLast : Bool} {place : Place} :
    fs.resolve followLast p = .ok (.present place) ↔
      p.IsTaken ∧ fs.view.Passable fs.workingDirectory p.steps ∧ place = fs.placeOf p := by
  rw [resolve_eq_ok_iff, Node.resolveSteps_eq_present_iff hlinks, placeOf_eq]
  rfl

/-- **What a path leads to** stands at its place. -/
theorem find_eq_ok_iff {place : Place} {n : Node} :
    fs.find p = .ok (place, n) ↔ p.IsTaken ∧ fs.view.Passable fs.workingDirectory p.steps ∧
      place = fs.placeOf p ∧ fs.root.at? place = some n := by
  unfold find
  constructor
  · intro h
    -- a path leads to a node that is there, or to a free name
    split at h
    · next other hother =>
      split at h
      · next m hm =>
        obtain ⟨rfl, rfl⟩ := Prod.mk.inj (Except.ok.inj h)
        obtain ⟨htaken, hpassable, hplace⟩ := (resolve_eq_present_iff hlinks).1 hother
        exact ⟨htaken, hpassable, hplace, hm⟩
      · cases h
    · cases h
    · cases h
  · rintro ⟨htaken, hpassable, hplace, hat⟩
    rw [(resolve_eq_present_iff hlinks).2 ⟨htaken, hpassable, hplace⟩]
    simp only [hat]

/-- **When a path leads to a directory.** -/
theorem isDirectory_iff :
    fs.isDirectory p = true ↔ p.IsTaken ∧ fs.view.Passable fs.workingDirectory p.steps ∧
      fs.view (fs.placeOf p) = some .directory := by
  rw [view, Node.view_eq_directory_iff]
  constructor
  · intro h
    -- what the path leads to stands at its place, so it is the directory in the view
    unfold isDirectory at h
    split at h
    · next place n hfind =>
      obtain ⟨htaken, hpassable, rfl, hat⟩ := (find_eq_ok_iff hlinks).1 hfind
      cases n with
      | directory entries => exact ⟨htaken, hpassable, entries, hat⟩
      | file content => cases h
      | link target => cases h
    · cases h
  · rintro ⟨htaken, hpassable, entries, hat⟩
    rw [isDirectory, (find_eq_ok_iff hlinks).2 ⟨htaken, hpassable, rfl, hat⟩]
    rfl

/-- **When a path leads to a file.** -/
theorem isFile_iff :
    fs.isFile p = true ↔ p.IsTaken ∧ fs.view.Passable fs.workingDirectory p.steps ∧
      ∃ content, fs.view (fs.placeOf p) = some (.file content) := by
  simp only [view, Node.view_eq_file_iff]
  constructor
  · intro h
    unfold isFile at h
    split at h
    · next place n hfind =>
      obtain ⟨htaken, hpassable, rfl, hat⟩ := (find_eq_ok_iff hlinks).1 hfind
      cases n with
      | file content => exact ⟨htaken, hpassable, content, hat⟩
      | directory entries => cases h
      | link target => cases h
    · cases h
  · rintro ⟨htaken, hpassable, content, hat⟩
    rw [isFile, (find_eq_ok_iff hlinks).2 ⟨htaken, hpassable, rfl, hat⟩]
    rfl

/-- **The places on the way to a directory** are directories. -/
theorem view_of_mem_way (h : fs.isDirectory p = true) {place : Place} (hplace : place ∈ fs.way p) :
    fs.view place = some .directory := by
  obtain ⟨-, hpassable, hdirectory⟩ := (isDirectory_iff hlinks).1 h
  obtain ⟨steps, ⟨rest, hrest⟩, hne, rfl⟩ := mem_way_iff.1 hplace
  have hbare : fs.view.Passable fs.workingDirectory p.bareSteps := hpassable.filter
  rw [← hrest, TreeView.passable_append] at hbare
  cases rest with
  | nil =>
    -- the way ends here
    rw [List.append_nil] at hrest
    rw [hrest]
    exact hdirectory
  | cons x rest =>
    refine hbare.2.directory_of_cons fun hx => ?_
    -- a path goes to the top only at its beginning
    obtain ⟨first, steps, rfl⟩ := List.exists_cons_of_ne_nil hne
    have htop : .top ∈ FilePath.bareStepsOf (p.pieces '/') := by
      have hmem : .top ∈ steps ++ x :: rest := hx ▸ List.mem_append_right _ List.mem_cons_self
      rw [FilePath.bareSteps_eq] at hrest
      split at hrest
      · have hpieces : steps ++ x :: rest = FilePath.bareStepsOf (p.pieces '/') :=
          (List.cons.inj hrest).2
        exact hpieces ▸ hmem
      · have hpieces : first :: (steps ++ x :: rest) = FilePath.bareStepsOf (p.pieces '/') := hrest
        exact hpieces ▸ List.mem_cons_of_mem _ hmem
    exact FilePath.top_notMem_bareStepsOf _ htop

end LinkFree

/-! ### Joined paths -/

/-- The way of a path that goes further down than another one. -/
theorem mem_way_of_bareSteps_eq {q : FilePath} {names : List Text}
    (h : q.bareSteps = p.bareSteps ++ names.map .down) {place : Place} (hplace : place ∈ fs.way q) :
    place ∈ fs.way p ∨ ∃ further, further <+: names ∧ further ≠ [] ∧
      place = fs.placeOf p ++ further := by
  obtain ⟨steps, hsteps, hne, rfl⟩ := mem_way_iff.1 hplace
  rw [h] at hsteps
  rcases List.prefix_or_prefix_of_prefix hsteps (List.prefix_append ..) with hbefore | ⟨rest, rfl⟩
  · exact .inl (mem_way_iff.2 ⟨steps, hbefore, hne, rfl⟩)
  · -- the rest of the steps goes down the first ones of the names
    have hrest := List.prefix_iff_eq_take.1 ((List.prefix_append_right_inj _).1 hsteps)
    rw [← List.map_take] at hrest
    rw [Place.follow_append]
    by_cases hnil : rest = []
    · subst hnil
      rw [List.append_nil] at hne
      exact .inl (placeOf_mem_way hne)
    · refine .inr ⟨names.take rest.length, List.take_prefix .., fun htake => hnil ?_, ?_⟩
      · rw [hrest, htake]
        rfl
      · conv_lhs => rw [hrest, Place.follow_map_down]
        rfl

/-- A path that goes down some names leads to those names below the directory it is joined to. -/
theorem placeOf_join {q : FilePath} {names : List Text} (hq : q.isAbsolute = false)
    (hnames : q.bareSteps = names.map .down) : fs.placeOf (p.join q) = fs.placeOf p ++ names := by
  rw [placeOf, FilePath.bareSteps_join hq, Place.follow_append, hnames, Place.follow_map_down]
  rfl

theorem placeOf_joinNames {names : List Text} (h : ∀ name ∈ names, Node.IsName name) :
    fs.placeOf (p.joinNames names) = fs.placeOf p ++ names := by
  induction names generalizing p with
  | nil => exact (List.append_nil _).symm
  | cons name names ih =>
    obtain ⟨hname, hnames⟩ := List.forall_mem_cons.1 h
    have hjoin : fs.placeOf (p.join name) = fs.placeOf p ++ [name] :=
      placeOf_join (FilePath.isAbsolute_of_isName hname) (FilePath.bareSteps_of_isName hname)
    change fs.placeOf ((p.join name).joinNames names) = _
    rw [ih hnames, hjoin, List.append_assoc, List.singleton_append]

end FileSystem

end Stencil
