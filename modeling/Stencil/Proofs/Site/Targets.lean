import Mathlib.Data.Set.Finite.Basic
import Stencil.Proofs.File.Confined
import Stencil.Proofs.Site.Loading
import Stencil.Proofs.Site.Overlap

/-!
# Where builds write

A build makes directories, writes pages and copies static files, and all that is meant to happen in
the output directory. Static files stay there. Pages do, wherever the site lies and its output goes,
if and only if their names, with the extension behind, are confined paths; names come from the files
of the pages, and may be anything that becomes of a file name when its backslashes become slashes.

* `Site.KeepsToOutput` — that no build of a site plans to make anything outside its output;
* `Site.keepsToOutput_iff` — only pages can lead out of it;
* `Site.forall_keepsToOutput_movedTo_iff` — and none does, wherever the site is moved, if and only
  if the names of all pages are confined;
* `Site.keepsToOutput_iff_of_load` — so for a loaded site, of which we know the names of the files;
* `Site.strays_backslash_slash` — two sites that write elsewhere.
-/

namespace Stencil

/-! ### Targets of deeds -/

theorem mem_parentDeeds {path target : FilePath} {d : Deed} (hd : d ∈ parentDeeds path)
    (htarget : d.target? = some target) : path.parent? = some target := by
  obtain ⟨parent, hparent, rfl⟩ := List.mem_map.1 hd
  obtain rfl := Option.some.inj htarget
  exact Option.mem_toList.1 hparent

/-- Static files and their directories are copied into the directory that they are copied to. -/
theorem within_of_mem_visitDeeds {source directory target : FilePath} {visits : List Visit}
    (hvisits : ∀ v ∈ visits, v.IsProper) {d : Deed} (hd : d ∈ visitDeeds source directory visits)
    (htarget : d.target? = some target) : target.spot.Within directory.spot := by
  have hwithin {names : List Text} (hproper : names ≠ [] ∧ ∀ name ∈ names, Node.IsName name) :
      (directory.join (Text.unpieces '/' names)).spot.Within directory.spot :=
    (FilePath.confined_unpieces hproper.1 hproper.2).within_join directory
  induction visits with
  | nil => cases hd
  | cons v visits ih =>
    obtain ⟨hv, hrest⟩ := List.forall_mem_cons.1 hvisits
    cases v with
    | fault names fault =>
      obtain rfl := List.mem_singleton.1 hd
      cases htarget
    | barred names fault =>
      -- a directory that cannot be opened is made before the copy fails
      rcases List.mem_cons.1 hd with rfl | hd
      · obtain rfl := Option.some.inj htarget
        exact hwithin hv
      · obtain rfl := List.mem_singleton.1 hd
        cases htarget
    | directory names =>
      rcases List.mem_cons.1 hd with rfl | hd
      · obtain rfl := Option.some.inj htarget
        exact hwithin hv
      · exact ih hrest hd
    | file names =>
      rcases List.mem_append.1 hd with hd | hd
      · exact (FilePath.confined_unpieces hv.1 hv.2).within_parent (mem_parentDeeds hd htarget)
      · rcases List.mem_cons.1 hd with rfl | hd
        · obtain rfl := Option.some.inj htarget
          exact hwithin hv
        · rcases List.mem_cons.1 hd with rfl | hd
          · cases htarget
          · exact ih hrest hd

theorem within_of_mem_staticDeeds {order : VisitOrder} {fs : FileSystem}
    (hfs : fs.root.WellFormed) {source directory target : FilePath} {d : Deed}
    (hd : d ∈ staticDeeds order fs source directory) (htarget : d.target? = some target) :
    target.spot.Within directory.spot := by
  unfold staticDeeds at hd
  split at hd
  · refine within_of_mem_visitDeeds (fun v hv => ?_) hd htarget
    exact FileSystem.isProper_of_mem_walk hfs ((order.perm _).mem_iff.1 hv)
  · obtain rfl := List.mem_singleton.1 hd
    cases htarget

namespace Site

variable {s : Site}

/-- Whether no build of a site **plans to make or overwrite** anything outside its output. -/
def KeepsToOutput (s : Site) : Prop :=
  ∀ w : World, w.files.root.WellFormed → ∀ d ∈ s.plan w, ∀ target, d.target? = some target →
    target.spot.Within s.outputDir.spot

/-! ### Confined names -/

theorem mem_names_of_mem_renderedPages {page : RenderedPage} (h : page ∈ s.renderedPages) :
    page.name ∈ s.engine.templates.names := by
  obtain ⟨e, he, rfl⟩ := List.mem_map.1 h
  exact List.mem_map_of_mem he

theorem exists_page_of_mem_names {name : Text} (h : name ∈ s.engine.templates.names) :
    ∃ page ∈ s.renderedPages, page.name = name := by
  obtain ⟨e, he, rfl⟩ := List.mem_map.1 h
  exact ⟨_, List.mem_map_of_mem he, rfl⟩

/-- Whether a page is to **stay in the output**, with the directory that is made for it. -/
def PageStays (s : Site) (name : Text) : Prop :=
  (s.pagePath name).spot.Within s.outputDir.spot ∧
    ∀ q, (s.pagePath name).parent? = some q → q.spot.Within s.outputDir.spot

theorem within_of_mem_pageDeeds {page : RenderedPage} (h : s.PageStays page.name) {d : Deed}
    (hd : d ∈ s.pageDeeds page) {target : FilePath} (htarget : d.target? = some target) :
    target.spot.Within s.outputDir.spot := by
  rcases List.mem_append.1 hd with hd | hd
  · exact h.2 target (mem_parentDeeds hd htarget)
  · rcases List.mem_cons.1 hd with rfl | hd
    · obtain rfl := Option.some.inj htarget
      exact h.1
    · obtain rfl := List.mem_singleton.1 hd
      cases htarget

/-- A page that leaves the output directory is to leave it whatever files there are. -/
theorem pageStays_of_keepsToOutput (h : s.KeepsToOutput) (hdenied : s.isDenied = false)
    {name : Text} (hname : name ∈ s.engine.templates.names) : s.PageStays name := by
  obtain ⟨page, hpage, rfl⟩ := exists_page_of_mem_names hname
  have hempty : Node.emptyDirectory.WellFormed := Node.wellFormed_directory_iff.2 ⟨.nil, nofun⟩
  -- a plan for any tree has the deeds of the pages, so an empty one will do
  have hdeed {d : Deed} {target : FilePath} (hd : d ∈ s.pageDeeds page)
      (htarget : d.target? = some target) : target.spot.Within s.outputDir.spot := by
    refine h ⟨⟨Node.emptyDirectory, []⟩, []⟩ hempty d ?_ target htarget
    rw [plan, hdenied]
    exact List.mem_append_left _ (List.mem_cons_of_mem _ (List.mem_flatMap.2 ⟨page, hpage, hd⟩))
  constructor
  · have hwrite : .write (s.pagePath page.name) page.rendered.output.toBytes ∈ s.pageDeeds page :=
      List.mem_append_right _ List.mem_cons_self
    exact hdeed hwrite rfl
  · intro q hq
    have hmake : .makeDirectories q ∈ s.pageDeeds page :=
      List.mem_append_left _ (List.mem_map_of_mem (Option.mem_toList.2 hq))
    exact hdeed hmake rfl

/-- **A site keeps to its output** if and only if its pages do, or none is written: the output
directory itself and the static files cannot lead out of it. -/
theorem keepsToOutput_iff :
    s.KeepsToOutput ↔ s.isDenied = true ∨ ∀ name ∈ s.engine.templates.names, s.PageStays name := by
  constructor
  · intro h
    cases hdenied : s.isDenied with
    | true => exact .inl rfl
    | false => exact .inr fun name hname => pageStays_of_keepsToOutput h hdenied hname
  · intro h w hw d hd target htarget
    unfold plan at hd
    split at hd
    · cases hd
    · next hdenied =>
      have hpages := h.resolve_left hdenied
      -- a deed makes the output directory, or is about a page, or about a static file
      rcases List.mem_append.1 hd with hd | hd
      · rcases List.mem_cons.1 hd with rfl | hd
        · obtain rfl := Option.some.inj htarget
          exact Spot.within_refl _
        · obtain ⟨page, hpage, hd⟩ := List.mem_flatMap.1 hd
          exact within_of_mem_pageDeeds (hpages _ (mem_names_of_mem_renderedPages hpage)) hd htarget
      · have hwell : (s.afterRendering w).files.root.WellFormed := hw
        have hafter := SiteAction.wellFormed_carryOutAll s.pagesDeeds hwell
        exact within_of_mem_staticDeeds hafter hd htarget

/-- A page with a confined name stays. -/
theorem pageStays_of_confined {name : Text}
    (h : FilePath.Confined (name ++ '.' :: s.config.pageExtension)) : s.PageStays name :=
  ⟨h.within_join s.outputDir, fun _ hq => h.within_parent hq⟩

end Site

/-! ### Other output directories -/

namespace SiteConfig

/-- The configuration with another output directory. -/
def withOutput (c : SiteConfig) (output : FilePath) : SiteConfig :=
  { c with outputDir := output }

/-- An output directory with a name that no directory of sources goes down to is accepted. -/
theorem validate_withOutput {c : SiteConfig} (h : c.validate = .ok ()) {name : Text}
    (hname : Node.IsName name) (hfresh : ∀ d ∈ c.sourceDirectories, .down name ∉ d.2.bareSteps) :
    (c.withOutput name).validate = .ok () := by
  obtain ⟨hdirs, hextension, hpoint, hoverlap⟩ := validate_eq_ok_iff_forall.1 h
  refine validate_eq_ok_iff_forall.2 ⟨fun d hd => ?_, hextension, hpoint, fun d hd => ?_⟩
  · rcases List.mem_append.1 (show d ∈ c.sourceDirectories ++ [("output_dir", name)] from hd)
      with hd | hd
    · exact hdirs d (List.mem_append_left [("output_dir", c.outputDir)] hd)
    · rw [List.mem_singleton.1 hd]
      exact hname.1
  · change ¬ Comparable (FilePath.bareSteps name) d.2.bareSteps
    rw [FilePath.bareSteps_of_isName hname]
    have hsource := hfresh d hd
    -- a source that is the root itself would have been in the way before
    have hne : d.2.bareSteps ≠ [] := fun hnil => hoverlap d hd (.inr (hnil ▸ List.nil_prefix))
    obtain ⟨x, steps, hsteps⟩ := List.exists_cons_of_ne_nil hne
    rw [hsteps] at hsource ⊢
    rintro (hbegins | hbegins)
    · exact hsource ((List.cons_prefix_cons.1 hbegins).1 ▸ List.mem_cons_self)
    · exact hsource ((List.cons_prefix_cons.1 hbegins).1 ▸ List.mem_cons_self)

/-- Some name of one letter over and over is none of those that steps go down to. -/
theorem exists_replicate_notMem (steps : List Step) (letter : Char) :
    ∃ n, .down (List.replicate (n + 1) letter) ∉ steps := by
  have hinjective : Function.Injective fun n => Step.down (List.replicate (n + 1) letter) := by
    intro m n hmn
    have hlength := congrArg List.length (Step.down.inj hmn)
    rw [List.length_replicate, List.length_replicate] at hlength
    exact Nat.succ.inj hlength
  exact ((List.finite_toSet steps).preimage hinjective.injOn).exists_notMem

/-- So there is an accepted output directory, and its name may begin with any letter. -/
theorem exists_validate_withOutput {c : SiteConfig} (h : c.validate = .ok ()) (letter : Char)
    (hdot : letter ≠ '.') (hslash : letter ≠ '/') :
    ∃ name : Text, Node.IsName name ∧ name.head? = some letter ∧
      (c.withOutput name).validate = .ok () := by
  -- a name of one letter repeated more often than any directory has it
  obtain ⟨n, hn⟩ := exists_replicate_notMem (c.sourceDirectories.flatMap (·.2.bareSteps)) letter
  have hhead : (List.replicate (n + 1) letter).head? = some letter := rfl
  have hname : Node.IsName (List.replicate (n + 1) letter) := by
    refine ⟨List.cons_ne_nil _ _, fun heq => ?_, fun heq => ?_, fun hmem => ?_⟩
    · rw [heq] at hhead
      exact hdot (Option.some.inj hhead).symm
    · rw [heq] at hhead
      exact hdot (Option.some.inj hhead).symm
    · exact hslash (List.eq_of_mem_replicate hmem).symm
  refine ⟨_, hname, hhead, validate_withOutput h hname fun d hd hmem => hn ?_⟩
  exact List.mem_flatMap.2 ⟨d, hd, hmem⟩

end SiteConfig

namespace Site

variable {s : Site}

/-- The site as it would be in another root, with another output directory. -/
def movedTo (s : Site) (root output : FilePath) : Site :=
  { s with root, config := s.config.withOutput output }

/-- **A page that stays** in every accepted output directory has a confined name. -/
theorem confined_of_pageStays (hvalid : s.config.validate = .ok ()) {name : Text}
    (h : ∀ output, (s.config.withOutput output).validate = .ok () →
      (s.movedTo [] output).PageStays name) :
    FilePath.Confined (name ++ '.' :: s.config.pageExtension) := by
  obtain ⟨m, hm, hmhead, hmvalid⟩ :=
    SiteConfig.exists_validate_withOutput hvalid 'a' (by decide) (by decide)
  obtain ⟨n, hn, hnhead, hnvalid⟩ :=
    SiteConfig.exists_validate_withOutput hvalid 'b' (by decide) (by decide)
  -- two outputs that lie where paths begin, so that a page cannot come back into both
  have hmn : m ≠ n := by
    rintro rfl
    rw [hmhead] at hnhead
    exact absurd (Option.some.inj hnhead) (by decide)
  have hjoin {output : Text} (houtput : Node.IsName output) :
      (s.movedTo [] output).outputDir = output := by
    change FilePath.join [] output = output
    rw [FilePath.join, FilePath.isAbsolute_of_isName houtput]
    rfl
  have hinm := h m hmvalid
  have hinn := h n hnvalid
  rw [PageStays, pagePath, hjoin hm] at hinm
  rw [PageStays, pagePath, hjoin hn] at hinn
  refine FilePath.confined_of_within hm hn hmn (fun directory hmem => ?_) hinm.2
  rcases List.mem_cons.1 hmem with rfl | hmem
  · exact hinm.1
  · rw [List.mem_singleton.1 hmem]
    exact hinn.1

/-- **Wherever a site is moved**, it keeps to its output if and only if its pages have confined
names, or none is written. -/
theorem forall_keepsToOutput_movedTo_iff (hvalid : s.config.validate = .ok ()) :
    (∀ root output, (s.config.withOutput output).validate = .ok () →
        (s.movedTo root output).KeepsToOutput) ↔
      s.isDenied = true ∨ ∀ name ∈ s.engine.templates.names,
        FilePath.Confined (name ++ '.' :: s.config.pageExtension) := by
  constructor
  · intro h
    cases hdenied : s.isDenied with
    | true => exact .inl rfl
    | false =>
      -- a page that stays inside for every output directory is confined
      refine .inr fun name hname => confined_of_pageStays hvalid fun output houtput => ?_
      exact pageStays_of_keepsToOutput (h [] output houtput) hdenied hname
  · intro h root output _
    refine keepsToOutput_iff.2 (h.imp_right fun hnames name hname => ?_)
    exact pageStays_of_confined (hnames name hname)

/-- **When builds of a loaded site write into its output only**, by what they plan to make and
overwrite: if and only if all its pages stay there, or none is written; and wherever the site is
moved, if and only if the names of its pages are confined. Names are, unless there is a backslash in
the names of files or a slash in the extension of pages. -/
theorem keepsToOutput_iff_of_load {root : FilePath} {c : SiteConfig} {w w' : World} {s : Site}
    (hfiles : w.files.root.WellFormed) (h : (load root c).perform w = (.ok s, w')) :
    (∀ v, (s.build.perform v).2.files
        = ((SiteAction.carryOutAll (s.plan v)).perform (s.afterRendering v)).2.files) ∧
      (s.KeepsToOutput ↔
        s.isDenied = true ∨ ∀ name ∈ s.engine.templates.names, s.PageStays name) ∧
      ((∀ root' output, (c.withOutput output).validate = .ok () →
          (s.movedTo root' output).KeepsToOutput) ↔
        s.isDenied = true ∨ ∀ name ∈ s.engine.templates.names,
          FilePath.Confined (name ++ '.' :: c.pageExtension)) ∧
      ∀ name ∈ s.engine.templates.names, ∃ names : List Text,
        (∀ n ∈ names, Node.IsName n) ∧ name = FilePath.templateName (Glob.relativePath names) ∧
          ((∀ n ∈ names, '\\' ∉ n) → '/' ∉ c.pageExtension →
            FilePath.Confined (name ++ '.' :: c.pageExtension)) := by
  obtain ⟨hvalid, -, hconfig, -⟩ := load_eq_ok h
  obtain ⟨-, hextension, hpoint, -⟩ := SiteConfig.validate_eq_ok_iff_forall.1 hvalid
  refine ⟨files_build s, keepsToOutput_iff, ?_, fun name hname => ?_⟩
  · subst hconfig
    exact forall_keepsToOutput_movedTo_iff hvalid
  -- a name comes from a file, whose path has no slashes but those between its names
  · obtain ⟨names, hnames, rfl⟩ := exists_names_of_mem_names hfiles h hname
    exact ⟨names, hnames, rfl, fun hbackslash hslash =>
      FilePath.confined_templateName hnames hbackslash hextension hpoint hslash⟩

/-! ### Sites of one page -/

/-- A world with nothing but a site that has one page, in a file of that name. -/
def onePage (fileName : Text) : World :=
  ⟨⟨.directory [("site".toList, .directory [("pages".toList,
    .directory [(fileName, .file "Hello!".toUTF8)])])], []⟩, []⟩

/-- The standard configuration, but for the extension of pages. -/
def extended (extension : Text) : SiteConfig :=
  { SiteConfig.standard with pageExtension := extension }

theorem wellFormed_onePage {fileName : Text} (h : Node.IsName fileName) :
    (onePage fileName).files.root.WellFormed := by
  have hsingle {name : Text} {node : Node} (hname : Node.IsName name) (hnode : node.WellFormed) :
      (Node.directory [(name, node)]).WellFormed := by
    refine Node.wellFormed_directory_iff.2 ⟨List.pairwise_singleton .., fun e he => ?_⟩
    rw [List.mem_singleton.1 he]
    exact ⟨hname, hnode⟩
  have hpage : (Node.file "Hello!".toUTF8).WellFormed := by
    rw [Node.WellFormed]
    trivial
  exact hsingle (by decide) (hsingle (by decide) (hsingle h hpage))

/-- The site of a page in `greeting.txt` keeps to its output, wherever it is moved. -/
theorem keepsToOutput_greeting :
    ∃ s w', (load "/site".toList .standard).perform (onePage "greeting.txt".toList) = (.ok s, w') ∧
      ∀ root output, (SiteConfig.standard.withOutput output).validate = .ok () →
        (s.movedTo root output).KeepsToOutput := by
  have hnames : ((load "/site".toList .standard).perform
      (onePage "greeting.txt".toList)).1.toOption.map (·.engine.templates.names)
        = some ["greeting".toList] := by cbv
  obtain ⟨s, w', hload, hs⟩ := SiteAction.exists_perform_eq_ok hnames
  obtain ⟨-, -, hmoved, -⟩ := keepsToOutput_iff_of_load (wellFormed_onePage (by decide)) hload
  refine ⟨s, w', hload, hmoved.2 (.inr fun name hname => ?_)⟩
  rw [hs, List.mem_singleton] at hname
  subst hname
  decide

/-- Whether a site of one page **strays**: it can be loaded, plans to write outside its output
directory, and does so at a place there. -/
def Strays (fileName extension : Text) (outside : FilePath) : Prop :=
  (∃ s w', (load "/site".toList (extended extension)).perform (onePage fileName) = (.ok s, w') ∧
    ¬ s.KeepsToOutput) ∧
  ¬ outside.spot.Within (FilePath.spot "/site/dist".toList) ∧
  (onePage fileName).files.isFile outside = false ∧
  ((load "/site".toList (extended extension) >>= build).perform
    (onePage fileName)).2.files.isFile outside = true

theorem not_keepsToOutput_of_names {fileName extension : Text} (name : Text)
    (hnames : ((load "/site".toList (extended extension)).perform
      (onePage fileName)).1.toOption.map (·.engine.templates.names) = some [name])
    (houtside : ¬ (FilePath.join "/site/dist".toList (name ++ '.' :: extension)).spot.Within
      (FilePath.spot "/site/dist".toList)) :
    ∃ s w', (load "/site".toList (extended extension)).perform (onePage fileName) = (.ok s, w') ∧
      ¬ s.KeepsToOutput := by
  obtain ⟨s, w', hload, hs⟩ := SiteAction.exists_perform_eq_ok hnames
  obtain ⟨-, hroot, hconfig, -⟩ := load_eq_ok hload
  refine ⟨s, w', hload, fun hkeeps => houtside ?_⟩
  -- nothing is denied, so the page is written where its name leads
  have hdenied : s.isDenied = false := by
    rw [isDenied, hconfig]
    rfl
  have hstays := pageStays_of_keepsToOutput hkeeps hdenied (hs ▸ List.mem_cons_self)
  rw [PageStays, pagePath, outputDir, hroot, hconfig] at hstays
  exact hstays.1

/-- Sites stray by backslashes in the name of a file, and by slashes in the extension of pages. -/
theorem strays_backslash_slash :
    Strays "..\\..\\stray.html".toList "html".toList "/stray.html".toList ∧
      Strays "greeting.txt".toList "x/../../stray.html".toList "/site/stray.html".toList := by
  refine ⟨⟨?_, by decide, by cbv, by cbv⟩, ⟨?_, by decide, by cbv, by cbv⟩⟩
  · exact not_keepsToOutput_of_names "../../stray".toList (by cbv) (by decide)
  · exact not_keepsToOutput_of_names "greeting".toList (by cbv) (by decide)

end Site

end Stencil
