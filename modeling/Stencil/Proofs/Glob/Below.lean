import Stencil.Proofs.Glob.Listing
import Stencil.Site.Basic

/-!
# All files below a directory

A site finds its pages and partials with the glob of everything below a directory (`globBelow`). Its
pattern describes every path (`GlobPattern.describes_everything`), and its directory is written with
a slash behind it, so it is no file (`FileSystem.isDirectory_of_find_slash`). So it finds all files
below, at any depth, in the order of their paths (`globFiles_globBelow`), if the path to the
directory holds no star.
-/

namespace Stencil

/-! ### The pattern -/

namespace Text

/-- The byte of a slash occurs in no other character. -/
theorem eq_slash_of_mem_utf8EncodeChar {c : Char}
    (h : GlobToken.slash ∈ String.utf8EncodeChar c) : c = '/' := by
  have hslash : GlobToken.slash = UInt8.ofNat 47 := rfl
  have hvalue : c.val.toNat = 47 := by
    have hc := val_toNat_lt c
    simp only [String.utf8EncodeChar, hslash] at h
    generalize c.val.toNat = n at h hc
    -- all bytes of a longer encoding are beyond those of the first 128 characters
    split_ifs at h
    all_goals
      simp (disch := omega) only [List.mem_cons, List.not_mem_nil, or_false, ofNat_eq_ofNat] at h
      omega
  exact Char.ext (UInt32.toNat_inj.1 hvalue)

theorem slash_notMem_bytes {t : Text} (h : '/' ∉ t) : GlobToken.slash ∉ t.bytes := by
  intro hmem
  obtain ⟨c, hc, hbyte⟩ := List.mem_flatMap.1 hmem
  exact h (eq_slash_of_mem_utf8EncodeChar hbyte ▸ hc)

theorem bytes_append (s t : Text) : bytes (s ++ t) = bytes s ++ bytes t :=
  List.flatMap_append

end Text

/-- The pattern of everything below a directory. -/
def GlobPattern.everything : GlobPattern :=
  ⟨[.leadingDirs, .anyName]⟩

theorem GlobPattern.ofText_everything : GlobPattern.ofText "**/*".toList = .ok everything := by
  cbv

/-- **The pattern of everything describes every path.** -/
theorem GlobPattern.describes_everything {names : List Text} (h : ∀ name ∈ names, '/' ∉ name) :
    everything.Describes (Text.unpieces '/' names) := by
  -- the directories on the path, and the last name
  have accepts {outer last : List UInt8} (houter : outer = [] ∨ ∃ r, outer = r ++ [GlobToken.slash])
      (hlast : GlobToken.slash ∉ last) :
      GlobToken.AllAccept [.leadingDirs, .anyName] (outer ++ last) := by
    simp only [GlobToken.AllAccept, GlobToken.Accepts]
    exact ⟨outer, last, rfl, houter, last, [], (List.append_nil _).symm, hlast, rfl⟩
  right
  by_cases hnil : names = []
  · subst hnil
    exact accepts (.inl rfl) List.not_mem_nil
  · obtain ⟨outer, last, rfl⟩ : ∃ outer last, names = outer ++ [last] :=
      ⟨_, _, (List.dropLast_concat_getLast hnil).symm⟩
    have hlast := Text.slash_notMem_bytes (h last List.mem_concat_self)
    by_cases houter : outer = []
    · subst houter
      exact accepts (.inl rfl) hlast
    · rw [Text.unpieces_concat houter, List.append_cons, Text.bytes_append, Text.bytes_append]
      exact accepts (.inr ⟨_, rfl⟩) hlast

/-! ### The directory -/

/-- What ends in a step to nowhere ends in such a step behind its first one, or it is all. -/
theorem getLast?_cons_eq_stay {x : Step} {steps : List Step}
    (h : (x :: steps).getLast? = some .stay) :
    steps = [] ∧ x = .stay ∨ steps.getLast? = some .stay := by
  cases steps with
  | nil => exact .inl ⟨rfl, Option.some.inj h⟩
  | cons y steps => exact .inr h

/-- Steps that end in one to nowhere lead to a directory, because only a directory is left so. -/
theorem Node.entriesAt?_of_resolveSteps {root : Node} {followLast : Bool} {links : Nat}
    {here place : Place} {steps : List Step} (hsteps : steps.getLast? = some .stay)
    (h : root.resolveSteps followLast links here steps = .ok (.present place)) :
    (root.entriesAt? place).isSome := by
  -- a step that is not the last one leaves that to the steps behind it
  have behind {x : Step} {others : List Step} (hlast : (x :: others).getLast? = some .stay)
      (hx : x ≠ .stay) : others.getLast? = some .stay :=
    (getLast?_cons_eq_stay hlast).resolve_left fun hend => hx hend.2
  fun_induction Node.resolveSteps root followLast links here steps with
  | case1 => cases hsteps
  | case2 links here others ih => exact ih (behind hsteps (by simp)) h
  | case3 links here others hdir ih =>
    rcases getLast?_cons_eq_stay hsteps with ⟨rfl, -⟩ | hlast
    · rw [Node.resolveSteps] at h
      obtain rfl := Resolved.present.inj (Except.ok.inj h)
      exact hdir
    · exact ih hlast h
  | case4 => cases h
  | case5 links here others hdir ih => exact ih (behind hsteps (by simp)) h
  | case6 => cases h
  | case7 => cases h
  | case8 => cases h
  | case9 => cases h
  | case10 => cases h
  | case11 here other others entries hentries hsize target links hfind hend =>
    -- a link at the end of the steps is no step to nowhere
    have hnil : others = [] := by
      rw [Bool.and_eq_true] at hend
      exact List.isEmpty_iff.1 hend.1
    have hlast := behind hsteps (by simp)
    rw [hnil] at hlast
    cases hlast
  | case12 => cases h
  | case13 here other others entries hentries hsize target hfind hfollow links ih =>
    have hlast := behind hsteps (by simp)
    exact ih (by rw [List.getLast?_append, hlast, Option.some_or]) h
  | case14 links here other others entries hentries hsize node hlink hfind ih =>
    exact ih (behind hsteps (by simp)) h

/-- The last step of a path that ends in a slash leads nowhere. -/
theorem FilePath.getLast?_steps_concat (p : FilePath) :
    (FilePath.steps (p ++ ['/'])).getLast? = some .stay := by
  have hpieces : (p ++ ['/']).pieces '/' = p.pieces '/' ++ [[]] := Text.pieces_append_cons ..
  have hmap : ((p ++ ['/']).pieces '/').map FilePath.stepOf
      = (p.pieces '/').map FilePath.stepOf ++ [.stay] := by
    rw [hpieces, List.map_append]
    rfl
  rw [FilePath.steps, hmap]
  split
  · rw [← List.cons_append, List.getLast?_concat]
  · rw [List.getLast?_concat]

namespace FileSystem

variable {fs : FileSystem} {place : Place} {n : Node}

/-- **A path that ends in a slash** leads to a directory, if it leads anywhere. -/
theorem isDirectory_of_find_slash {p : FilePath} (h : fs.find (p ++ ['/']) = .ok (place, n)) :
    n.isDirectory := by
  have hat := at?_of_find h
  have hresolve : fs.resolve true (p ++ ['/']) = .ok (.present place) := by
    unfold find at h
    split at h
    · next other hother =>
      split at h
      · obtain ⟨rfl, -⟩ := Prod.mk.inj (Except.ok.inj h)
        exact hother
      · cases h
    · cases h
    · cases h
  have hsteps : fs.root.resolveSteps true maxLinks fs.workingDirectory
      (FilePath.steps (p ++ ['/'])) = .ok (.present place) := by
    unfold resolve at hresolve
    split at hresolve
    · cases hresolve
    · split at hresolve
      · cases hresolve
      · split at hresolve
        · cases hresolve
        · exact hresolve
  -- the last step is one to nowhere, and that takes a directory
  have hentries := Node.entriesAt?_of_resolveSteps (p.getLast?_steps_concat) hsteps
  rw [Node.entriesAt?, hat] at hentries
  cases n with
  | directory entries => rfl
  | file content => cases hentries
  | link target => cases hentries

end FileSystem

/-! ### The files -/

section Files

variable {directory : FilePath} (hstar : '*' ∉ directory)
include hstar

/-- Where a directory holds no star, the glob of everything below it is cut behind its slash. -/
theorem Glob.ofText_globBelow :
    Glob.ofText (globBelow directory) = .ok ⟨directory ++ ['/'], .everything⟩ := by
  -- the first star is the one behind the slash
  have hbefore : ∀ c ∈ directory ++ ['/'], decide (c ≠ '*') = true := by
    intro c hc
    rcases List.mem_append.1 hc with hc | hc
    · exact decide_eq_true fun heq => hstar (heq ▸ hc)
    · rw [List.mem_singleton.1 hc]
      rfl
  have hglob : globBelow directory = directory ++ ['/'] ++ "**/*".toList := by
    rw [globBelow, List.append_assoc]
    rfl
  have htake : (globBelow directory).takeWhile (· ≠ '*') = directory ++ ['/'] := by
    rw [hglob, List.takeWhile_append_of_pos hbefore]
    exact List.append_nil _
  have hdrop : (globBelow directory).dropWhile (· ≠ '*') = "**/*".toList := by
    rw [hglob, List.dropWhile_append_of_pos hbefore]
    rfl
  have hmem : '*' ∈ globBelow directory := by
    rw [hglob]
    exact List.mem_append_right _ (by decide)
  have hp : GlobPattern.ofText ((globBelow directory).dropWhile (· ≠ '*')) = .ok .everything := by
    rw [hdrop, GlobPattern.ofText_everything]
  rw [Glob.ofText_eq_ok hmem hp, htake]

/-- In a directory that does not exist there are no files. -/
theorem globFiles_globBelow_of_error {fs : FileSystem} {e : IoFault}
    (hfind : fs.find (directory ++ ['/']) = .error e) :
    Engine.globFiles fs (globBelow directory) = .ok [] := by
  rw [Engine.globFiles, Glob.ofText_globBelow hstar]
  simp only [Glob.files, FileSystem.canonical?, hfind]

/-- **The glob of everything below a directory** finds all files below, at any depth, in the order
of their places. -/
theorem globFiles_globBelow {fs : FileSystem} (hfs : fs.Plain) {place : Place} {n : Node}
    (hfind : fs.find (directory ++ ['/']) = .ok (place, n)) :
    Engine.globFiles fs (globBelow directory)
      = .ok (n.files.map fun names =>
          ⟨FileSystem.pathTo (place ++ names), Text.unpieces '/' names⟩) := by
  have hwell := FileSystem.wellFormed_of_find hfs.wellFormed hfind
  -- the pattern describes every path, since no name in it has a slash
  have hall : (n.files.filter fun names =>
      GlobPattern.everything.matches (Text.unpieces '/' names)) = n.files := by
    refine List.filter_eq_self.2 fun names hnames => ?_
    obtain ⟨content, hcontent⟩ := (Node.mem_files_iff hwell).1 hnames
    have hproper := (Node.wellFormed_of_at? hwell hcontent).1
    exact (GlobPattern.matches_iff _ _).2
      (GlobPattern.describes_everything fun name hname => (hproper name hname).2.2.2)
  rw [Engine.globFiles, Glob.ofText_globBelow hstar]
  exact congrArg Except.ok ((Glob.files_eq hfs hfind).trans (by rw [hall]))

end Files

end Stencil
