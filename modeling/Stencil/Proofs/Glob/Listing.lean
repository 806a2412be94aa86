import Mathlib.Data.List.Forall2
import Mathlib.Data.List.TakeWhile
import Stencil.Engine.Basic
import Stencil.Proofs.File.Plain
import Stencil.Proofs.Text.ByteOrder

/-!
# What globs list

A glob is cut in front of its first star: what stands before it is a directory, and what begins with
it is a pattern for the paths below that directory. In a plain file system it lists exactly the
files there that the pattern describes, each once, in the order of their paths
(`Glob.lists_files`).

One would rather cut a glob behind the last slash before the star, so that a star may stand anywhere
in a name (`Glob.cutAtSlash`). Where the star begins a name it is the same cut, and the glob lists
what it says (`Engine.exists_lists_of_slash`). Elsewhere it does not: the name up to the star is
taken for that of a directory (`Engine.not_lists_starInName`).
-/

namespace Stencil

/-! ### Listings -/

/-- Whether names lead from a directory **down to a file** with that content. -/
def FileSystem.HasFile (fs : FileSystem) (directory : FilePath) (names : List Text)
    (content : ByteArray) : Prop :=
  ∃ place n, fs.find directory = .ok (place, n) ∧ n.at? names = some (.file content)

namespace FileSystem

variable {fs : FileSystem} {directory : FilePath} {place : Place} {n : Node}

theorem at?_of_at? {m : Node} {names : List Text} (hat : fs.root.at? place = some n)
    (hm : n.at? names = some m) : fs.root.at? (place ++ names) = some m := by
  rw [Node.at?_append, hat]
  exact hm

theorem hasFile_iff (hfind : fs.find directory = .ok (place, n)) {names : List Text}
    {content : ByteArray} :
    fs.HasFile directory names content ↔ n.at? names = some (.file content) := by
  refine ⟨?_, fun h => ⟨place, n, hfind, h⟩⟩
  rintro ⟨place', n', hfind', h⟩
  obtain ⟨rfl, rfl⟩ := Prod.mk.inj (Except.ok.inj (hfind.symm.trans hfind'))
  exact h

end FileSystem

namespace Glob

/-- Whether a file was found where some names lead from a directory. -/
structure FoundAt (fs : FileSystem) (directory : FilePath) (names : List Text) (file : FoundFile) :
    Prop where
  relative : file.relative = Text.unpieces '/' names
  path : ∃ place n content, fs.find directory = .ok (place, n) ∧
    fs.find file.path = .ok (place ++ names, .file content)

/-- Whether some files **are those below a directory** whose paths from there a pattern describes,
each once, in the order of the bytes of the names on their paths. -/
def Lists (fs : FileSystem) (directory : FilePath) (p : GlobPattern) (found : List FoundFile) :
    Prop :=
  ∃ listed : List (List Text),
    (∀ names, names ∈ listed ↔
      (∃ content, fs.HasFile directory names content) ∧ p.Describes (Text.unpieces '/' names)) ∧
    listed.Pairwise (fun a b => a.map Text.bytes < b.map Text.bytes) ∧
    List.Forall₂ (FoundAt fs directory) listed found

variable {fs : FileSystem} {directory : FilePath} {p : GlobPattern} {found : List FoundFile}

/-- In a directory that does not exist there is nothing to list. -/
theorem Lists.eq_nil (h : Lists fs directory p found) {e : IoFault}
    (hfind : fs.find directory = .error e) : found = [] := by
  obtain ⟨listed, hmem, -, hfound⟩ := h
  have hlisted : listed = [] := by
    refine List.eq_nil_iff_forall_not_mem.2 fun names hnames => ?_
    obtain ⟨⟨content, place, n, hok, -⟩, -⟩ := (hmem names).1 hnames
    rw [hfind] at hok
    cases hok
  rw [hlisted] at hfound
  exact List.forall₂_nil_left_iff.1 hfound

/-- What is listed is as many files as there are. -/
theorem Lists.ne_nil (h : Lists fs directory p found) {names : List Text} {content : ByteArray}
    (hfile : fs.HasFile directory names content)
    (hp : p.Describes (Text.unpieces '/' names)) : found ≠ [] := by
  obtain ⟨listed, hmem, -, hfound⟩ := h
  have hnames : names ∈ listed := (hmem names).2 ⟨⟨content, hfile⟩, hp⟩
  rintro rfl
  rw [List.forall₂_nil_right_iff.1 hfound] at hnames
  cases hnames

/-! ### What is found -/

theorem relativePath_eq {names : List Text} (h : ∀ name ∈ names, '\\' ∉ name) :
    relativePath names = Text.unpieces '/' names :=
  FilePath.map_backslash_of_notMem (FilePath.notMem_unpieces (by decide) h)

theorem joinNames_pathTo (place : Place) (names : List Text) :
    (FileSystem.pathTo place).joinNames names = FileSystem.pathTo (place ++ names) :=
  List.foldl_append.symm

/-- What a glob finds in a directory: the files below, in the order of the tree. -/
theorem files_eq (hfs : fs.Plain) {g : Glob} {place : Place} {n : Node}
    (hfind : fs.find g.directory = .ok (place, n)) :
    g.files fs = (n.files.filter fun names => g.pattern.matches (Text.unpieces '/' names)).map
      fun names => ⟨FileSystem.pathTo (place ++ names), Text.unpieces '/' names⟩ := by
  have hat := FileSystem.at?_of_find hfind
  have hwell := FileSystem.wellFormed_of_find hfs.wellFormed hfind
  have hlinks : n.LinkFree := Node.linkFree_of_at? hfs.linkFree hat
  have hcanonical : fs.canonical? g.directory = some (FileSystem.pathTo place) := by
    rw [FileSystem.canonical?, hfind]
  -- no file has a name that a relative path would spell in another way
  have hrelative : ∀ names ∈ n.files, relativePath names = Text.unpieces '/' names := by
    intro names hnames
    obtain ⟨content, hcontent⟩ := (Node.mem_files_iff hwell).1 hnames
    have hfile := FileSystem.at?_of_at? hat hcontent
    exact relativePath_eq fun name hname =>
      (hfs.names _ _ hfile name (List.mem_append_right _ hname)).2.2
  have hmap : (n.files.map fun names =>
        (⟨(FileSystem.pathTo place).joinNames names, relativePath names⟩ : FoundFile))
      = n.files.map fun names =>
        ⟨FileSystem.pathTo (place ++ names), Text.unpieces '/' names⟩ := by
    refine List.map_congr_left fun names hnames => ?_
    rw [joinNames_pathTo, hrelative names hnames]
  simp only [files, hcanonical, filesBelow_eq (hfs.find_pathTo hat) hlinks, hmap, List.filter_map]
  rfl

/-- **A glob lists the files** below its directory that its pattern describes. -/
theorem lists_files (hfs : fs.Plain) (g : Glob) : Lists fs g.directory g.pattern (g.files fs) := by
  cases hfind : fs.find g.directory with
  | error e =>
    have hnone : g.files fs = [] := by rw [files, FileSystem.canonical?, hfind]
    rw [hnone]
    refine ⟨[], fun names => iff_of_false List.not_mem_nil ?_, .nil, .nil⟩
    rintro ⟨⟨content, place, n, hok, -⟩, -⟩
    rw [hfind] at hok
    cases hok
  | ok looked =>
    obtain ⟨place, n⟩ := looked
    have hat := FileSystem.at?_of_find hfind
    have hwell := FileSystem.wellFormed_of_find hfs.wellFormed hfind
    rw [files_eq hfs hfind]
    refine ⟨_, fun names => ?_, ?_, List.forall₂_map_right_iff.2 (List.forall₂_same.2 ?_)⟩
    · -- a file below the directory is one below the node that the directory is
      have hfile : (∃ content, fs.HasFile g.directory names content)
          ↔ ∃ content, n.at? names = some (.file content) :=
        exists_congr fun content => FileSystem.hasFile_iff hfind
      rw [List.mem_filter, Node.mem_files_iff hwell, GlobPattern.matches_iff, hfile]
    · exact ((Node.pairwise_files n hwell).filter _).imp Text.map_bytes_lt_iff.2
    · intro names hnames
      obtain ⟨content, hcontent⟩ :=
        (Node.mem_files_iff hwell).1 (List.mem_of_mem_filter hnames)
      have hfile := FileSystem.at?_of_at? hat hcontent
      exact ⟨rfl, place, n, content, hfind, hfs.find_pathTo hfile⟩

/-! ### Where a glob is cut -/

/-- The directory and the pattern of a glob, **cut behind the last slash** before its first star, or
else in front, where the directory is the one in which relative paths begin. -/
def cutAtSlash (t : Text) : FilePath × Text :=
  let before := t.takeWhile (· ≠ '*')
  let rest := t.dropWhile (· ≠ '*')
  match Text.cutAtLast? (· = '/') before with
  | some (directory, name) => (directory ++ ['/'], name ++ rest)
  | none => (['.'], t)

/-- **Both cuts are the same** where the first star begins a name behind a slash, and only there. -/
theorem cutAtSlash_eq_iff {t : Text} :
    cutAtSlash t = (t.takeWhile (· ≠ '*'), t.dropWhile (· ≠ '*')) ↔
      (t.takeWhile (· ≠ '*')).getLast? = some '/' := by
  constructor
  · intro h
    simp only [cutAtSlash] at h
    split at h
    · rw [← (Prod.mk.inj h).1]
      exact List.getLast?_concat
    · -- a glob whose pattern is the whole of it has nothing in front of the pattern
      have hwhole : t.takeWhile (· ≠ '*') ++ t.dropWhile (· ≠ '*') = t :=
        List.takeWhile_append_dropWhile
      obtain ⟨hbefore, hrest⟩ := Prod.mk.inj h
      rw [← hbefore, ← hrest] at hwhole
      exact absurd hwhole (List.cons_ne_self '.' t)
  · intro h
    obtain ⟨directory, hdirectory⟩ := List.getLast?_eq_some_iff.1 h
    have hcut : Text.cutAtLast? (· = '/') (directory ++ ['/']) = some (directory, []) :=
      Text.cutAtLast?_append_cons directory (fun _ hmem => absurd hmem List.not_mem_nil) rfl
    simp only [cutAtSlash, hdirectory, hcut]
    rfl

theorem dropWhile_ne_nil {t : Text} (h : '*' ∈ t) : t.dropWhile (· ≠ '*') ≠ [] := by
  intro hnil
  have hne := List.dropWhile_eq_nil_iff.1 hnil '*' h
  exact of_decide_eq_true hne rfl

theorem ofText_eq_ok {t : Text} (hstar : '*' ∈ t)
    (hp : GlobPattern.ofText (t.dropWhile (· ≠ '*')) = .ok p) :
    ofText t = .ok ⟨t.takeWhile (· ≠ '*'), p⟩ := by
  have hne : (t.dropWhile (· ≠ '*')).isEmpty = false :=
    List.isEmpty_eq_false_iff.2 (dropWhile_ne_nil hstar)
  simp only [ofText, hne, hp]
  rfl

end Glob

namespace Engine

variable {fs : FileSystem} {t : Text} {p : GlobPattern}

/-- **What a glob finds**, wherever its first star stands: the files below the directory that is
named in front of the star, as far as the pattern that begins with it describes their paths. -/
theorem globFiles_lists (hfs : fs.Plain) (hstar : '*' ∈ t)
    (hp : GlobPattern.ofText (t.dropWhile (· ≠ '*')) = .ok p) :
    ∃ found, globFiles fs t = .ok found ∧ Glob.Lists fs (t.takeWhile (· ≠ '*')) p found := by
  refine ⟨_, ?_, Glob.lists_files hfs ⟨t.takeWhile (· ≠ '*'), p⟩⟩
  rw [globFiles, Glob.ofText_eq_ok hstar hp]

/-- A glob finds nothing where no directory has the name in front of its first star. -/
theorem globFiles_of_missing (hfs : fs.Plain) (hstar : '*' ∈ t)
    (hp : GlobPattern.ofText (t.dropWhile (· ≠ '*')) = .ok p) {e : IoFault}
    (hfind : fs.find (t.takeWhile (· ≠ '*')) = .error e) : globFiles fs t = .ok [] := by
  obtain ⟨found, hfound, hlists⟩ := globFiles_lists hfs hstar hp
  rw [hfound, hlists.eq_nil hfind]

/-- **Where the first star of a glob begins a name, the glob finds all files** below its directory
that its pattern describes, and nothing else: each once, in the order of the names on their paths,
and none if the directory does not exist. -/
theorem exists_lists_of_slash (hfs : fs.Plain) (hstar : '*' ∈ t)
    (hp : GlobPattern.ofText (Glob.cutAtSlash t).2 = .ok p)
    (hslash : (t.takeWhile (· ≠ '*')).getLast? = some '/') :
    ∃ found, globFiles fs t = .ok found ∧ Glob.Lists fs (Glob.cutAtSlash t).1 p found ∧
      ∀ e, fs.find (Glob.cutAtSlash t).1 = .error e → found = [] := by
  rw [Glob.cutAtSlash_eq_iff.2 hslash] at hp ⊢
  obtain ⟨found, hfound, hlists⟩ := globFiles_lists hfs hstar hp
  exact ⟨found, hfound, hlists, fun e => hlists.eq_nil⟩

/-! ### A page about something -/

/-- A tree with one page. -/
def aboutTree : Node :=
  .directory [("pages".toList, .directory [("about.html".toList, .file "Hello!".toUTF8)])]

/-- That tree, where relative paths begin at the given place. -/
def aboutFiles (workingDirectory : Place) : FileSystem :=
  ⟨aboutTree, workingDirectory⟩

theorem plain_aboutFiles (workingDirectory : Place) : (aboutFiles workingDirectory).Plain := by
  have hwell : aboutTree.WellFormed := by decide
  have hlinks : aboutTree.LinkFree := by decide
  have hplaces : ∀ place ∈ aboutTree.places,
      (∀ name ∈ place, name.size ≤ maxNameSize ∧ '\x00' ∉ name ∧ '\\' ∉ name) ∧
        (FileSystem.pathTo place).size ≤ maxPathSize := by decide
  exact FileSystem.plain_of_places hwell hlinks rfl hplaces

theorem find_pages : (aboutFiles []).find "pages/".toList
    = .ok (["pages".toList], .directory [("about.html".toList, .file "Hello!".toUTF8)]) := by
  have hsteps : FilePath.steps "pages/".toList = [.down "pages".toList, .stay] := rfl
  rw [FileSystem.find, FileSystem.resolve, hsteps]
  simp only [Node.resolveSteps]
  rfl

theorem find_here : (aboutFiles ["pages".toList]).find ".".toList
    = .ok (["pages".toList], .directory [("about.html".toList, .file "Hello!".toUTF8)]) := by
  have hsteps : FilePath.steps ".".toList = [.stay] := rfl
  rw [FileSystem.find, FileSystem.resolve, hsteps]
  simp only [Node.resolveSteps]
  rfl

/-- No directory has the name that is cut out of a name in front of a star. -/
theorem find_pagesA : (aboutFiles []).find "pages/a".toList = .error .notFound := by
  have hsteps : FilePath.steps "pages/a".toList = [.down "pages".toList, .down ['a']] := rfl
  rw [FileSystem.find, FileSystem.resolve, hsteps]
  simp only [Node.resolveSteps]
  rfl

/-- The page is what the directory has. -/
theorem hasFile_about {directory : FilePath} {workingDirectory : Place}
    (h : (aboutFiles workingDirectory).find directory
      = .ok (["pages".toList], .directory [("about.html".toList, .file "Hello!".toUTF8)])) :
    (aboutFiles workingDirectory).HasFile directory ["about.html".toList] "Hello!".toUTF8 :=
  (FileSystem.hasFile_iff h).2 rfl

/-- A star that begins the name of a page finds the page. -/
theorem exists_lists_aboutFiles :
    (aboutFiles []).Plain ∧ '*' ∈ "pages/*.html".toList ∧
      ("pages/*.html".toList.takeWhile (· ≠ '*')).getLast? = some '/' ∧
      ∃ p, GlobPattern.ofText (Glob.cutAtSlash "pages/*.html".toList).2 = .ok p ∧
        ∃ found, globFiles (aboutFiles []) "pages/*.html".toList = .ok found ∧ found ≠ [] ∧
          Glob.Lists (aboutFiles []) (Glob.cutAtSlash "pages/*.html".toList).1 p found := by
  have hplain := plain_aboutFiles []
  have hstar : '*' ∈ "pages/*.html".toList := by decide
  have hslash : ("pages/*.html".toList.takeWhile (· ≠ '*')).getLast? = some '/' := by decide
  -- the directory ends where the name begins, with the star
  have hcut : Glob.cutAtSlash "pages/*.html".toList = ("pages/".toList, "*.html".toList) := by
    decide
  have hp : GlobPattern.ofText (Glob.cutAtSlash "pages/*.html".toList).2
      = .ok ⟨[.anyName, .literal '.', .literal 'h', .literal 't', .literal 'm', .literal 'l']⟩ := by
    rw [hcut]
    with_unfolding_all rfl
  obtain ⟨found, hfound, hlists, -⟩ := exists_lists_of_slash hplain hstar hp hslash
  have hfile := hasFile_about find_pages
  rw [hcut] at hlists
  have hdescribes : GlobPattern.Describes
      ⟨[.anyName, .literal '.', .literal 'h', .literal 't', .literal 'm', .literal 'l']⟩
      (Text.unpieces '/' ["about.html".toList]) := (GlobPattern.matches_iff _ _).1 (by decide)
  exact ⟨hplain, hstar, hslash, _, hp, found, hfound, hlists.ne_nil hfile hdescribes, hcut ▸ hlists⟩

/-- A glob does not list the page if it finds nothing, though its pattern describes the page and its
directory is that of the page. -/
theorem not_exists_lists {workingDirectory : Place} {t directory pattern : Text}
    (hcut : Glob.cutAtSlash t = (directory, pattern))
    (hnothing : globFiles (aboutFiles workingDirectory) t = .ok [])
    (hfind : (aboutFiles workingDirectory).find directory
      = .ok (["pages".toList], .directory [("about.html".toList, .file "Hello!".toUTF8)]))
    (hmatches : p.matches "about.html".toList = true) :
    ¬ ∃ found, globFiles (aboutFiles workingDirectory) t = .ok found ∧
      Glob.Lists (aboutFiles workingDirectory) (Glob.cutAtSlash t).1 p found := by
  rintro ⟨found, hfound, hlists⟩
  rw [hcut] at hlists
  refine hlists.ne_nil (hasFile_about hfind) ((GlobPattern.matches_iff _ _).1 hmatches) ?_
  exact Except.ok.inj (hfound.symm.trans hnothing)

/-- A star inside a name finds nothing: what stands before it in the name is taken for a directory.
Neither does a star that begins a glob, in front of which there is no directory at all. -/
theorem not_lists_starInName :
    (∃ p, GlobPattern.ofText (Glob.cutAtSlash "pages/a*.html".toList).2 = .ok p ∧
      ¬ ∃ found, globFiles (aboutFiles []) "pages/a*.html".toList = .ok found ∧
        Glob.Lists (aboutFiles []) (Glob.cutAtSlash "pages/a*.html".toList).1 p found) ∧
    ∃ p, GlobPattern.ofText (Glob.cutAtSlash "*.html".toList).2 = .ok p ∧
      ¬ ∃ found, globFiles (aboutFiles ["pages".toList]) "*.html".toList = .ok found ∧
        Glob.Lists (aboutFiles ["pages".toList]) (Glob.cutAtSlash "*.html".toList).1 p found := by
  -- cut at the slash, the directory would be the one of the page
  have hcut : Glob.cutAtSlash "pages/a*.html".toList = ("pages/".toList, "a*.html".toList) := by
    decide
  have hcut' : Glob.cutAtSlash "*.html".toList = (".".toList, "*.html".toList) := by decide
  have hp : GlobPattern.ofText (Glob.cutAtSlash "pages/a*.html".toList).2
      = .ok ⟨[.literal 'a', .anyName, .literal '.', .literal 'h', .literal 't', .literal 'm',
          .literal 'l']⟩ := by
    rw [hcut]
    with_unfolding_all rfl
  have hp' : GlobPattern.ofText (Glob.cutAtSlash "*.html".toList).2
      = .ok ⟨[.anyName, .literal '.', .literal 'h', .literal 't', .literal 'm', .literal 'l']⟩ := by
    rw [hcut']
    with_unfolding_all rfl
  -- the glob cuts at the star, in front of which no directory has its name
  have hnothing : globFiles (aboutFiles []) "pages/a*.html".toList = .ok [] :=
    globFiles_of_missing (plain_aboutFiles []) (by decide) (hcut' ▸ hp') find_pagesA
  have hnothing' : globFiles (aboutFiles ["pages".toList]) "*.html".toList = .ok [] :=
    globFiles_of_missing (plain_aboutFiles _) (by decide) (hcut' ▸ hp') rfl
  refine ⟨⟨_, hp, ?_⟩, ⟨_, hp', ?_⟩⟩
  · exact not_exists_lists hcut hnothing find_pages (by decide)
  · exact not_exists_lists hcut' hnothing' find_here (by decide)

end Engine

end Stencil
