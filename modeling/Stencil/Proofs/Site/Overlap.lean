import Mathlib.Data.List.Infix
import Stencil.Proofs.File.Spot
import Stencil.Site.Config

/-!
# Output directories in the way

A configuration is accepted if the output directory and the directories of sources do not overlap by
their spelling, but what counts is where they lead from the root of the site. This module says when
the one is enough for the other.

* `Spot.Apart` — when two relative paths keep apart from every root: neither may lead into the
  other, also not if the path that goes up further comes back down by the names it has left;
* `FilePath.forall_not_overlaps_join_iff` — so two paths keep apart from every root if and only if
  they begin at the same place and their spots are apart;
* `FilePath.apart_of_straight` — paths that never go up are apart if their spellings do not overlap,
  and that is what validation looks at;
* `SiteConfig.forall_root_not_overlaps_iff` — hence when an accepted configuration keeps its output
  away from its sources, wherever the site lies;
* `SiteConfig.crossing_overlaps` — not every accepted configuration does.
-/

namespace Stencil

/-! ### Names in the way of names -/

/-- Whether one of two lists of names goes on where the other ends. -/
def Comparable {α : Type} (a b : List α) : Prop :=
  a <+: b ∨ b <+: a

section Comparable

variable {α : Type} {a b : List α}

instance [DecidableEq α] (a b : List α) : Decidable (Comparable a b) :=
  inferInstanceAs (Decidable (_ ∨ _))

theorem Comparable.symm (h : Comparable a b) : Comparable b a :=
  Or.symm h

theorem comparable_append_left_iff (c : List α) :
    Comparable (c ++ a) (c ++ b) ↔ Comparable a b := by
  rw [Comparable, List.prefix_append_right_inj, List.prefix_append_right_inj]
  rfl

theorem Comparable.drop (h : Comparable a b) (n : Nat) : Comparable (a.drop n) (b.drop n) :=
  h.imp (fun h => h.drop n) (fun h => h.drop n)

/-- Names in the way of each other behind the beginnings of one list. The longer beginning goes down
some of the names that follow the shorter one. -/
theorem exists_drop_of_comparable {root : List α} {m n : Nat} (hmn : m ≤ n)
    (h : Comparable (root.take m ++ a) (root.take n ++ b)) :
    ∃ i ≤ n - m, Comparable (a.drop i) b := by
  have hsplit : root.take n = root.take m ++ (root.take n).drop m := by
    conv_lhs => rw [← List.take_append_drop m (root.take n)]
    rw [List.take_take, Nat.min_eq_left hmn]
  rw [hsplit, List.append_assoc, comparable_append_left_iff] at h
  refine ⟨((root.take n).drop m).length, ?_, ?_⟩
  · rw [List.length_drop, List.length_take]
    omega
  · -- what `root` has between the beginnings is dropped on both sides
    have hdrop := h.drop ((root.take n).drop m).length
    rwa [List.drop_left] at hdrop

/-- Names in the way of what is left of others are so behind the names that those have lost. -/
theorem comparable_of_drop {i : Nat} (filler : α) (h : Comparable (a.drop i) b) :
    Comparable a (a.take i ++ List.replicate (i - a.length) filler ++ b) := by
  by_cases hi : i ≤ a.length
  · rw [Nat.sub_eq_zero_of_le hi, List.replicate_zero, List.append_nil]
    conv => congr; rw [← List.take_append_drop i a]
    exact (comparable_append_left_iff _).2 h
  · rw [List.take_of_length_le (by omega), List.append_assoc]
    exact .inl (List.prefix_append ..)

end Comparable

/-! ### Spots that keep apart -/

namespace Spot

/-- Whether two spots **keep apart from every root** from which both go on. The one that goes up
further may find the other one behind names that the root ends in, as many as it goes up further. -/
def Apart (s t : Spot) : Prop :=
  ∀ i ≤ t.ups - s.ups, ∀ j ≤ s.ups - t.ups, ¬ Comparable (s.names.drop j) (t.names.drop i)

instance (s t : Spot) : Decidable (s.Apart t) :=
  inferInstanceAs (Decidable (∀ i ≤ _, ∀ j ≤ _, ¬ _))

theorem Apart.symm {s t : Spot} (h : s.Apart t) : t.Apart s :=
  fun i hi j hj hcomparable => h j hj i hi hcomparable.symm

theorem Overlaps.symm {s t : Spot} (h : s.Overlaps t) : t.Overlaps s :=
  Or.symm h

/-- Absolute spots overlap if their names are in the way of each other. -/
theorem overlaps_iff_comparable (a b : List Text) :
    Overlaps ⟨true, 0, a⟩ ⟨true, 0, b⟩ ↔ Comparable a b := by
  simp only [Overlaps, Within, Comparable, true_and, Nat.lt_irrefl, false_and, or_false]
  exact Or.comm

/-- What lies beneath an absolute spot. -/
theorem beneath_absolute (root : List Text) (s : Spot) :
    beneath ⟨true, 0, root⟩ s = ⟨true, 0, root.take (root.length - s.ups) ++ s.names⟩ := by
  rw [beneath, up_iterate_of_absolute rfl]
  rfl

/-- Spots that are apart do not overlap, whatever root they are seen from; the second one is the one
that goes up less far. -/
theorem Apart.not_overlaps_of_le {s t : Spot} (h : s.Apart t) (hups : t.ups ≤ s.ups)
    (root : List Text) : ¬ (beneath ⟨true, 0, root⟩ s).Overlaps (beneath ⟨true, 0, root⟩ t) := by
  intro hoverlaps
  rw [beneath_absolute, beneath_absolute, overlaps_iff_comparable] at hoverlaps
  obtain ⟨j, hj, hcomparable⟩ :=
    exists_drop_of_comparable (Nat.sub_le_sub_left hups root.length) hoverlaps
  refine h 0 (Nat.zero_le _) j ?_ hcomparable
  omega

theorem Apart.not_overlaps {s t : Spot} (h : s.Apart t) (root : List Text) :
    ¬ (beneath ⟨true, 0, root⟩ s).Overlaps (beneath ⟨true, 0, root⟩ t) := by
  rcases Nat.le_total t.ups s.ups with hups | hups
  · exact h.not_overlaps_of_le hups root
  · exact fun hoverlaps => h.symm.not_overlaps_of_le hups root hoverlaps.symm

/-- The name that roots end in where any would do. -/
def fillerName : Text := ['x']

/-- The root from which a spot that is not apart from another overlaps it. It ends in the names that
the one which goes up less far comes through. -/
def meetingRoot (s t : Spot) (j : Nat) : List Text :=
  s.names.take j ++ List.replicate (j - s.names.length + t.ups) fillerName

theorem overlaps_meetingRoot {s t : Spot} {j : Nat} (hj : j ≤ s.ups - t.ups)
    (hups : t.ups ≤ s.ups) (h : Comparable (s.names.drop j) t.names) :
    (beneath ⟨true, 0, meetingRoot s t j⟩ s).Overlaps
      (beneath ⟨true, 0, meetingRoot s t j⟩ t) := by
  have hlength : (meetingRoot s t j).length = j + t.ups := by
    rw [meetingRoot, List.length_append, List.length_take, List.length_replicate]
    omega
  -- going up from the root, the one path leaves all of it, and the other one the first names
  have hs : (meetingRoot s t j).take ((meetingRoot s t j).length - s.ups) = [] := by
    rw [hlength, show j + t.ups - s.ups = 0 by omega, List.take_zero]
  have ht : (meetingRoot s t j).take ((meetingRoot s t j).length - t.ups)
      = s.names.take j ++ List.replicate (j - s.names.length) fillerName := by
    rw [hlength, Nat.add_sub_cancel, meetingRoot, List.take_append, List.take_take, Nat.min_self,
      List.length_take, List.take_replicate]
    congr 2
    omega
  rw [beneath_absolute, beneath_absolute, overlaps_iff_comparable, hs, ht, List.nil_append]
  exact comparable_of_drop fillerName h

/-- Some root brings spots together that are not apart. -/
theorem exists_root_of_not_apart {s t : Spot} (hs : ∀ name ∈ s.names, Node.IsName name)
    (ht : ∀ name ∈ t.names, Node.IsName name) (h : ¬ s.Apart t) :
    ∃ root : List Text, (∀ name ∈ root, Node.IsName name) ∧
      (beneath ⟨true, 0, root⟩ s).Overlaps (beneath ⟨true, 0, root⟩ t) := by
  -- the root is made of the names of a spot and of filler, so it is one that a path leads to
  have isName (u v : Spot) (hu : ∀ name ∈ u.names, Node.IsName name) (j : Nat) :
      ∀ name ∈ meetingRoot u v j, Node.IsName name := by
    intro name hname
    rcases List.mem_append.1 hname with hname | hname
    · exact hu name (List.mem_of_mem_take hname)
    · rw [List.eq_of_mem_replicate hname]
      decide
  simp only [Apart, not_forall, not_not] at h
  obtain ⟨i, hi, j, hj, hcomparable⟩ := h
  -- only the spot that goes up further loses names
  rcases Nat.le_total t.ups s.ups with hups | hups
  · obtain rfl : i = 0 := by omega
    exact ⟨meetingRoot s t j, isName s t hs j, overlaps_meetingRoot hj hups hcomparable⟩
  · obtain rfl : j = 0 := by omega
    refine ⟨meetingRoot t s i, isName t s ht i, ?_⟩
    exact (overlaps_meetingRoot hi hups hcomparable.symm).symm

end Spot

/-! ### Directories of a site -/

namespace FilePath

/-- A directory that is given by an absolute path, seen from the root that it is. -/
theorem spot_eq_of_absolute {p : FilePath} (h : p.isAbsolute = true) :
    p.spot = ⟨true, 0, p.spot.names⟩ := by
  have habsolute := (absolute_spot p).trans h
  have hups := ups_spot_of_absolute h
  cases hp : p.spot with
  | mk absolute ups names =>
    rw [hp] at habsolute hups
    obtain rfl : absolute = true := habsolute
    obtain rfl : ups = 0 := hups
    rfl

/-- A path to any list of names is absolute. -/
theorem isAbsolute_pathTo {names : List Text} (h : ∀ name ∈ names, Node.IsName name) :
    (FileSystem.pathTo names).isAbsolute = true := by
  rw [← absolute_spot, spot_pathTo h]

/-- An absolute directory lies around all that one comes to from some roots. -/
theorem exists_root_of_absolute {p q : FilePath} (hp : p.isAbsolute = false)
    (hq : q.isAbsolute = true) :
    ∃ root : FilePath, root.isAbsolute = true ∧
      (root.join p).spot.Overlaps (root.join q).spot := by
  have hnames : ∀ name ∈ q.spot.names ++ List.replicate p.spot.ups Spot.fillerName,
      Node.IsName name := by
    intro name hname
    rcases List.mem_append.1 hname with hname | hname
    · exact isName_of_mem_spot hname
    · rw [List.eq_of_mem_replicate hname]
      decide
  -- a root inside the absolute path, as deep as the other path goes up
  refine ⟨FileSystem.pathTo _, isAbsolute_pathTo hnames, ?_⟩
  rw [spot_join hp, join_of_absolute hq, spot_eq_of_absolute hq, spot_pathTo hnames,
    Spot.beneath_absolute, Spot.overlaps_iff_comparable, List.length_append, List.length_replicate,
    Nat.add_sub_cancel, List.take_left]
  exact .inr (List.prefix_append ..)

/-- **Two directories keep apart** from every root if and only if they begin at the same place and
their spots are apart. -/
theorem forall_not_overlaps_join_iff (p q : FilePath) :
    (∀ root : FilePath, root.isAbsolute = true →
        ¬ (root.join p).spot.Overlaps (root.join q).spot) ↔
      p.isAbsolute = q.isAbsolute ∧ p.spot.Apart q.spot := by
  cases hp : p.isAbsolute with
  | true =>
    cases hq : q.isAbsolute with
    | true =>
      -- the root does not count, and neither path goes above the top
      have happart : p.spot.Apart q.spot ↔ ¬ p.spot.Overlaps q.spot := by
        rw [spot_eq_of_absolute hp, spot_eq_of_absolute hq, Spot.overlaps_iff_comparable]
        constructor
        · intro h
          exact h 0 (Nat.zero_le _) 0 (Nat.zero_le _)
        · intro h i hi j hj
          obtain rfl : i = 0 := Nat.le_zero.1 hi
          obtain rfl : j = 0 := Nat.le_zero.1 hj
          exact h
      constructor
      · intro h
        have hroot := h ['/'] rfl
        rw [join_of_absolute hp, join_of_absolute hq] at hroot
        exact ⟨rfl, happart.2 hroot⟩
      · intro h root _
        rw [join_of_absolute hp, join_of_absolute hq]
        exact happart.1 h.2
    | false =>
      obtain ⟨root, hroot, hoverlaps⟩ := exists_root_of_absolute hq hp
      exact ⟨fun h => absurd hoverlaps.symm (h root hroot), fun h => absurd h.1 (by decide)⟩
  | false =>
    cases hq : q.isAbsolute with
    | true =>
      obtain ⟨root, hroot, hoverlaps⟩ := exists_root_of_absolute hp hq
      exact ⟨fun h => absurd hoverlaps (h root hroot), fun h => absurd h.1 (by decide)⟩
    | false =>
      constructor
      · intro h
        refine ⟨rfl, ?_⟩
        -- spots that are not apart come together from some root
        by_contra happart
        obtain ⟨root, hnames, hoverlaps⟩ := Spot.exists_root_of_not_apart
          (fun _ => isName_of_mem_spot) (fun _ => isName_of_mem_spot) happart
        refine h (FileSystem.pathTo root) (isAbsolute_pathTo hnames) ?_
        rw [spot_join hp, spot_join hq, spot_pathTo hnames]
        exact hoverlaps
      · intro h root hroot
        rw [spot_join hp, spot_join hq, spot_eq_of_absolute hroot]
        exact h.2.not_overlaps _

/-- **Paths that never go up** are apart if their spellings do not overlap. -/
theorem apart_of_straight {p q : FilePath} (habsolute : p.isAbsolute = q.isAbsolute)
    (hp : p.IsStraight) (hq : q.IsStraight) (h : ¬ Comparable p.bareSteps q.bareSteps) :
    p.spot.Apart q.spot := by
  obtain ⟨hpsteps, hpups⟩ := hp.bareSteps_eq
  obtain ⟨hqsteps, hqups⟩ := hq.bareSteps_eq
  intro i hi j hj hcomparable
  -- neither goes up, so no names are dropped
  obtain rfl : i = 0 := by omega
  obtain rfl : j = 0 := by omega
  refine h ?_
  rw [hpsteps, hqsteps, habsolute, comparable_append_left_iff]
  exact hcomparable.imp (fun h => h.map _) (fun h => h.map _)

end FilePath

/-! ### Accepted configurations -/

theorem Overlap.ofPaths?_eq_none_iff {output source : FilePath} :
    Overlap.ofPaths? output source = none ↔ ¬ Comparable output.bareSteps source.bareSteps := by
  rw [Comparable, not_or, ← List.isPrefixOf_iff_prefix, ← List.isPrefixOf_iff_prefix]
  simp only [ofPaths?]
  split
  · next hsame =>
    refine iff_of_false nofun fun h => h.1 ?_
    -- equal paths overlap as well
    rw [hsame, List.isPrefixOf_iff_prefix]
  · split
    · next hinside => exact iff_of_false nofun fun h => h.2 hinside
    · next hinside =>
      split
      · next haround => exact iff_of_false nofun fun h => h.1 haround
      · next haround => exact iff_of_true rfl ⟨haround, hinside⟩

namespace SiteConfig

/-- **What is accepted**: directories and an extension that are not empty, an extension without a
point in front, and an output directory and directories of sources that do not overlap by their
spelling. -/
theorem validate_eq_ok_iff_forall {c : SiteConfig} :
    c.validate = .ok () ↔
      (∀ d ∈ c.directories, d.2 ≠ []) ∧ c.pageExtension ≠ [] ∧ c.pageExtension.head? ≠ some '.' ∧
        ∀ d ∈ c.sourceDirectories, ¬ Comparable c.outputDir.bareSteps d.2.bareSteps := by
  have hempty : (c.directories.filter (·.2.isEmpty)).map (fun d => ConfigFault.emptyDirectory d.1)
      = [] ↔ ∀ d ∈ c.directories, d.2 ≠ [] := by
    simp only [List.map_eq_nil_iff, List.filter_eq_nil_iff, List.isEmpty_iff, Ne]
  have hextension : (if c.pageExtension.isEmpty then [ConfigFault.emptyExtension] else []) = [] ↔
      c.pageExtension ≠ [] := by
    simp only [List.isEmpty_iff, ite_eq_right_iff, List.cons_ne_nil, imp_false, Ne]
  have hpoint : (if c.pageExtension.head? = some '.' then
      [ConfigFault.dottedExtension c.pageExtension] else []) = [] ↔
      c.pageExtension.head? ≠ some '.' := by
    simp only [ite_eq_right_iff, List.cons_ne_nil, imp_false, Ne]
  -- each check leaves no fault just when its condition holds
  have hoverlap (d : String × FilePath) : ((Overlap.ofPaths? c.outputDir d.2).map fun how =>
      ConfigFault.overlap how d.1) = none ↔ ¬ Comparable c.outputDir.bareSteps d.2.bareSteps := by
    rw [Option.map_eq_none_iff, Overlap.ofPaths?_eq_none_iff]
  rw [validate_eq_ok_iff, faults, List.append_eq_nil_iff, List.append_eq_nil_iff,
    List.append_eq_nil_iff, hempty, hextension, hpoint, List.filterMap_eq_nil_iff, and_assoc,
    and_assoc]
  simp only [hoverlap]

/-- In an accepted configuration the output directory and a directory of sources do not overlap by
their spelling. -/
theorem not_comparable_of_validate {c : SiteConfig} (h : c.validate = .ok ())
    {d : String × FilePath} (hd : d ∈ c.sourceDirectories) :
    ¬ Comparable c.outputDir.bareSteps d.2.bareSteps :=
  (validate_eq_ok_iff_forall.1 h).2.2.2 d hd

/-- **When an accepted configuration keeps its output away from its sources**, wherever the site
lies: if the output directory and each directory of sources begin at the same place, and they never
go up or are apart all the same. -/
theorem forall_root_not_overlaps_iff {c : SiteConfig} (h : c.validate = .ok ()) :
    (∀ root : FilePath, root.isAbsolute = true → ∀ d ∈ c.sourceDirectories,
        ¬ (root.join c.outputDir).spot.Overlaps (root.join d.2).spot) ↔
      ∀ d ∈ c.sourceDirectories, c.outputDir.isAbsolute = d.2.isAbsolute ∧
        (c.outputDir.IsStraight ∧ d.2.IsStraight ∨ c.outputDir.spot.Apart d.2.spot) := by
  constructor
  · intro hroots d hd
    obtain ⟨habsolute, hapart⟩ := (FilePath.forall_not_overlaps_join_iff c.outputDir d.2).1
      fun root hroot => hroots root hroot d hd
    exact ⟨habsolute, .inr hapart⟩
  · intro hdirs root hroot d hd
    obtain ⟨habsolute, hcases⟩ := hdirs d hd
    -- straight paths of one kind are compared as they stand
    have hapart : c.outputDir.spot.Apart d.2.spot := by
      rcases hcases with ⟨houtput, hsource⟩ | hapart
      · exact FilePath.apart_of_straight habsolute houtput hsource (not_comparable_of_validate h hd)
      · exact hapart
    exact (FilePath.forall_not_overlaps_join_iff c.outputDir d.2).2 ⟨habsolute, hapart⟩ root hroot

/-- A configuration whose output goes up and comes down again next to the sources. -/
def roundabout : SiteConfig :=
  { standard with outputDir := "../site/dist".toList }

/-- Also where the site is not called `site`, that output is out of the way. -/
theorem forall_root_not_overlaps_roundabout :
    roundabout.validate = .ok () ∧
      ∀ root : FilePath, root.isAbsolute = true → ∀ d ∈ roundabout.sourceDirectories,
        ¬ (root.join roundabout.outputDir).spot.Overlaps (root.join d.2).spot :=
  ⟨rfl, (forall_root_not_overlaps_iff rfl).2 (by decide +kernel)⟩

/-- A configuration whose output goes into the data by way of another directory. -/
def crossing : SiteConfig :=
  { standard with outputDir := "dist/../data".toList }

/-- It is accepted, and its output is its data. -/
theorem crossing_overlaps :
    crossing.validate = .ok () ∧ ("data_dir", crossing.dataDir) ∈ crossing.sourceDirectories ∧
      FilePath.isAbsolute "/site".toList = true ∧
      (FilePath.join "/site".toList crossing.outputDir).spot
        = (FilePath.join "/site".toList crossing.dataDir).spot ∧
      (FilePath.join "/site".toList crossing.outputDir).spot.Overlaps
        (FilePath.join "/site".toList crossing.dataDir).spot := by
  refine ⟨rfl, List.mem_cons_self, rfl, ?_, ?_⟩
  · decide +kernel
  · decide +kernel

end SiteConfig

end Stencil
