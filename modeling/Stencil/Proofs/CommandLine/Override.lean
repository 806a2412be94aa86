import Stencil.CommandLine.Run
import Stencil.Proofs.Site.Loading

/-!
# The command line before the file

What the command line says about the output directory and about warnings takes the place of what the
configuration file says. But the file has to be usable by itself: it is validated when it is read,
before anything takes its place, and what the site is loaded with is validated again.

* `SiteAction.EndsByFiles` — how loading a site ends is a matter of the files alone;
* `Invocation.perform_loadSite` — what loading a site from the command line does;
* `Invocation.outcome_loadSite_iff` — so it ends as if the file had said what the command line says,
  if and only if the file is usable by itself, or has the same fault either way; and what the file
  says about the output makes no difference under the same condition.
-/

namespace Stencil

/-! ### The files and the log -/

namespace SiteAction

/-- Whether **the files alone decide** how an action ends and what files it leaves. -/
def EndsByFiles {α : Type} (x : SiteAction α) : Prop :=
  ∀ w v : World, w.files = v.files →
    (x.perform w).1 = (x.perform v).1 ∧ (x.perform w).2.files = (x.perform v).2.files

theorem EndsByFiles.bind {α β : Type} {x : SiteAction α} {f : α → SiteAction β}
    (hx : x.EndsByFiles) (hf : ∀ a, (f a).EndsByFiles) : (x >>= f).EndsByFiles := by
  intro w v hwv
  obtain ⟨hresult, hfiles⟩ := hx w v hwv
  rw [perform_bind, perform_bind]
  generalize x.perform w = done at hresult hfiles ⊢
  generalize x.perform v = done' at hresult hfiles ⊢
  obtain ⟨r, w'⟩ := done
  obtain ⟨r', v'⟩ := done'
  obtain rfl : r = r' := hresult
  -- both runs of the first action have the same result, and leave the same files to the second one
  cases r with
  | ok a => exact hf a w' v' hfiles
  | error e => exact ⟨rfl, hfiles⟩

theorem heldByLoading_endsByFiles : HeldByLoading EndsByFiles where
  bind := EndsByFiles.bind
  pure _ _ _ hwv := ⟨rfl, hwv⟩
  throw _ _ _ hwv := ⟨rfl, hwv⟩
  log _ _ _ _ hwv := ⟨rfl, hwv⟩
  files _ _ hwv := ⟨congrArg Except.ok hwv, hwv⟩

/-- Whether an action never **stops because of a configuration**. -/
def AcceptsConfig {α : Type} (x : SiteAction α) : Prop :=
  ∀ w fault, (x.perform w).1 ≠ .error (.config fault)

theorem AcceptsConfig.bind {α β : Type} {x : SiteAction α} {f : α → SiteAction β}
    (hx : x.AcceptsConfig) (hf : ∀ a, (f a).AcceptsConfig) : (x >>= f).AcceptsConfig := by
  intro w fault
  have hresult := hx w fault
  rw [perform_bind]
  generalize x.perform w = done at hresult ⊢
  obtain ⟨r, w'⟩ := done
  cases r with
  | ok a => exact hf a w' fault
  | error e => exact fun heq => hresult (congrArg Except.error (Except.error.inj heq))

theorem heldByLoading_acceptsConfig : HeldByLoading AcceptsConfig where
  bind := AcceptsConfig.bind
  pure _ _ _ := nofun
  throw he _ fault heq := he fault (Except.error.inj heq)
  log _ _ _ _ := nofun
  files _ _ := nofun

end SiteAction

namespace Site

variable {root : FilePath} {c : SiteConfig}

theorem load_of_validate_eq_error {fault : ConfigFault} (h : c.validate = .error fault)
    (w : World) : (load root c).perform w = (.error (.config fault), w) := by
  unfold load
  rw [h]
  rfl

/-- What was logged before makes no difference to how loading a site ends. -/
theorem endsByFiles_load (root : FilePath) (c : SiteConfig) : (load root c).EndsByFiles := by
  cases hvalid : c.validate with
  | ok _ => exact SiteAction.heldByLoading_endsByFiles.load hvalid root
  | error fault =>
    intro w v hwv
    rw [load_of_validate_eq_error hvalid, load_of_validate_eq_error hvalid]
    exact ⟨rfl, hwv⟩

/-- **Loading a site stops because of its configuration** if and only if that is not accepted. -/
theorem load_eq_config_iff {w : World} {fault : ConfigFault} :
    ((load root c).perform w).1 = .error (.config fault) ↔ c.validate = .error fault := by
  cases hvalid : c.validate with
  | ok _ =>
    refine iff_of_false ?_ nofun
    exact SiteAction.heldByLoading_acceptsConfig.load hvalid root w fault
  | error fault' =>
    rw [load_of_validate_eq_error hvalid]
    constructor
    · exact fun h => congrArg _ (SiteError.config.inj (Except.error.inj h))
    · exact fun h => congrArg _ (congrArg _ (Except.error.inj h))

end Site

/-! ### Reading the file -/

theorem FileSystem.isFile_of_readText {fs : FileSystem} {p : FilePath} {t : Text}
    (h : fs.readText p = .ok t) : fs.isFile p = true := by
  unfold readText read at h
  rw [isFile]
  -- only a file has a text
  cases hfind : fs.find p with
  | error e =>
    rw [hfind] at h
    cases h
  | ok found =>
    obtain ⟨place, n⟩ := found
    cases n with
    | file content => rfl
    | directory entries =>
      rw [hfind] at h
      cases h
    | link target =>
      rw [hfind] at h
      cases h

/-- Whether a text **is the configuration** `c` in JSON, be it usable or not. -/
def SiteConfig.IsWrittenAs (c : SiteConfig) (t : Text) : Prop :=
  ∃ tree, JsonTree.ofText? t = some tree ∧ ofTree tree = .ok c

theorem SiteConfig.IsWrittenAs.ofJson_eq {c : SiteConfig} {t : Text} (h : c.IsWrittenAs t) :
    ofJson t = c.validate.map fun _ => c := by
  obtain ⟨tree, htree, hc⟩ := h
  rw [ofJson, htree]
  simp only [hc]
  cases c.validate <;> rfl

namespace Invocation

variable {i : Invocation} {w : World} {c : SiteConfig}

/-- The configuration file that a command line is about. -/
def configPath (i : Invocation) : FilePath :=
  i.options.config.getD (i.root.join configFileName)

/-- Whether the configuration file of a command line **says** `c`. -/
def Reads (i : Invocation) (fs : FileSystem) (c : SiteConfig) : Prop :=
  ∃ t, fs.readText i.configPath = .ok t ∧ c.IsWrittenAs t

/-- The world when it has been said which file is read. -/
def afterOpening (i : Invocation) (w : World) : World :=
  { w with log := w.log ++ [⟨.debug, s!"Loading config from {String.ofList i.configPath}"⟩] }

/-- **Reading the configuration** gives what the file says, if that is usable by itself. -/
theorem perform_loadConfig (h : i.Reads w.files c) :
    (SiteConfig.load i.root i.options.config).perform w
      = ((c.validate.map fun _ => c).mapError .config, i.afterOpening w) := by
  obtain ⟨t, htext, hwritten⟩ := h
  have hopen : (SiteAction.log .debug
      s!"Loading config from {String.ofList i.configPath}").perform w
        = (.ok (), i.afterOpening w) := rfl
  have hread : (SiteAction.readText i.configPath).perform (i.afterOpening w)
      = (.ok t, i.afterOpening w) := by
    change (SiteAction.accessing i.configPath (w.files.readText i.configPath)).perform _ = _
    rw [htext]
    rfl
  unfold SiteConfig.load
  cases hconfig : i.options.config with
  | some path =>
    obtain rfl : i.configPath = path := by rw [configPath, hconfig]; rfl
    simp only [pure_bind]
    rw [SiteAction.perform_bind_of_ok hopen, SiteAction.perform_bind_of_ok hread,
      hwritten.ofJson_eq]
    cases c.validate <;> rfl
  | none =>
    have hpath : i.configPath = i.root.join configFileName := by rw [configPath, hconfig]; rfl
    -- the file is there, so the defaults do not take its place
    have hthere : (!w.files.isFile i.configPath) = false := by
      rw [FileSystem.isFile_of_readText htext]
      rfl
    have hfiles : SiteAction.files.perform w = (.ok w.files, w) := rfl
    simp only [pure_bind, ← hpath]
    rw [SiteAction.perform_bind_of_ok hfiles, hthere, if_neg Bool.false_ne_true,
      SiteAction.perform_bind_of_ok hopen, SiteAction.perform_bind_of_ok hread, hwritten.ofJson_eq]
    cases c.validate <;> rfl

/-! ### Loading the site -/

/-- **What loading a site from the command line does**: the file has to be usable by itself, and
then the site is loaded with what the command line makes of it. -/
theorem perform_loadSite (h : i.Reads w.files c) :
    i.loadSite.perform w = match c.validate with
      | .ok () => (Site.load i.root (i.override c)).perform (i.afterOpening w)
      | .error fault => (.error (.config fault), i.afterOpening w) := by
  rw [loadSite, SiteAction.perform_bind, perform_loadConfig h]
  cases c.validate <;> rfl

/-- What is found when the file is validated, and then what the command line makes of it. -/
def validation (i : Invocation) (c : SiteConfig) : Except ConfigFault Unit :=
  match c.validate with
  | .ok () => (i.override c).validate
  | .error fault => .error fault

end Invocation

namespace Site

/-- How loading a site ends when a configuration was judged before: with its fault, or as loading
does. -/
def ending (root : FilePath) (c : SiteConfig) (w : World) :
    Except ConfigFault Unit → Except SiteError Site
  | .ok () => ((load root c).perform w).1
  | .error fault => .error (.config fault)

/-- Loading judges the configuration itself. -/
theorem ending_validate (root : FilePath) (c : SiteConfig) (w : World) :
    ending root c w c.validate = ((load root c).perform w).1 := by
  cases hvalid : c.validate with
  | ok _ => rfl
  | error fault => exact (load_eq_config_iff.2 hvalid).symm

/-- **Judgements are told apart** by how loading ends, if none passes what is not accepted. -/
theorem ending_eq_iff {root : FilePath} {c : SiteConfig} {w : World}
    {judged judged' : Except ConfigFault Unit} (h : judged = .ok () → c.validate = .ok ())
    (h' : judged' = .ok () → c.validate = .ok ()) :
    ending root c w judged = ending root c w judged' ↔ judged = judged' := by
  -- loading itself ends in no fault of a valid configuration
  have hends {fault : ConfigFault} (hvalid : c.validate = .ok ()) :
      ((load root c).perform w).1 ≠ .error (.config fault) := by
    intro heq
    cases hvalid.symm.trans (load_eq_config_iff.1 heq)
  refine ⟨fun heq => ?_, congrArg _⟩
  cases judged with
  | ok _ =>
    cases judged' with
    | ok _ => rfl
    | error fault => exact absurd heq (hends (h rfl))
  | error fault =>
    cases judged' with
    | ok _ => exact absurd heq.symm (hends (h' rfl))
    | error fault' => exact congrArg _ (SiteError.config.inj (Except.error.inj heq))

end Site

namespace Invocation

variable {i : Invocation} {w : World} {c : SiteConfig}

theorem validate_override_of_validation (h : i.validation c = .ok ()) :
    (i.override c).validate = .ok () := by
  unfold validation at h
  split at h
  · exact h
  · cases h

/-- The file decides first, and then the command line. -/
theorem validation_eq_iff :
    i.validation c = (i.override c).validate
      ↔ c.validate = .ok () ∨ c.validate = (i.override c).validate := by
  rw [validation]
  cases c.validate <;> simp

/-- **How loading a site from the command line ends** is a matter of the two validations. -/
theorem outcome_loadSite (h : i.Reads w.files c) :
    (i.loadSite.perform w).1 = Site.ending i.root (i.override c) w (i.validation c) := by
  rw [perform_loadSite h, validation]
  cases c.validate with
  | ok _ =>
    rw [Site.ending_validate]
    exact (Site.endsByFiles_load i.root (i.override c) (i.afterOpening w) w rfl).1
  | error fault => rfl

end Invocation

/-! ### Faults of the output -/

/-- Whether a fault is one **of the output directory**. -/
def ConfigFault.IsAboutOutput : ConfigFault → Prop
  | .emptyDirectory field => field = "output_dir"
  | .overlap .. => True
  | _ => False

namespace SiteConfig

theorem validate_eq_error_iff {c : SiteConfig} {fault : ConfigFault} :
    c.validate = .error fault ↔ c.faults.head? = some fault := by
  unfold validate
  split
  · next h => simp [h]
  · next first rest h => simp [h]

/-- The faults of the directories of sources alone. -/
def sourceFaults (c : SiteConfig) : List ConfigFault :=
  (c.sourceDirectories.filter (·.2.isEmpty)).map fun d => .emptyDirectory d.1

/-- The faults of the extension of pages. -/
def extensionFaults (c : SiteConfig) : List ConfigFault :=
  (if c.pageExtension.isEmpty then [.emptyExtension] else []) ++
    if c.pageExtension.head? = some '.' then [.dottedExtension c.pageExtension] else []

/-- The faults of the output directory where it overlaps directories of sources. -/
def overlapFaults (c : SiteConfig) : List ConfigFault :=
  c.sourceDirectories.filterMap fun d =>
    (Overlap.ofPaths? c.outputDir d.2).map fun how => .overlap how d.1

/-- The faults of a configuration, in their order. -/
theorem faults_eq (c : SiteConfig) :
    c.faults = c.sourceFaults ++
      (if c.outputDir.isEmpty then [.emptyDirectory "output_dir"] else []) ++
        c.extensionFaults ++ c.overlapFaults := by
  have hdirectories : (c.directories.filter (·.2.isEmpty)).map (fun d => .emptyDirectory d.1)
      = c.sourceFaults ++ if c.outputDir.isEmpty then [.emptyDirectory "output_dir"] else [] := by
    change ((c.sourceDirectories ++ [("output_dir", c.outputDir)]).filter (·.2.isEmpty)).map
      (fun d => ConfigFault.emptyDirectory d.1) = _
    rw [List.filter_append, List.map_append, List.filter_cons, List.filter_nil]
    cases c.outputDir.isEmpty <;> rfl
  rw [faults, hdirectories, extensionFaults, overlapFaults]
  simp only [List.append_assoc]

theorem isAboutOutput_of_mem_overlapFaults {c : SiteConfig} {fault : ConfigFault}
    (h : fault ∈ c.overlapFaults) : fault.IsAboutOutput := by
  obtain ⟨d, -, hd⟩ := List.mem_filterMap.1 h
  obtain ⟨how, -, rfl⟩ := Option.map_eq_some_iff.1 hd
  trivial

/-- **A fault that is not about the output** is there whatever the output is. -/
theorem validate_of_not_isAboutOutput {c : SiteConfig} {fault : ConfigFault}
    (h : c.validate = .error fault) (hfault : ¬ fault.IsAboutOutput) {output : FilePath}
    (houtput : output ≠ []) (deny : Bool) :
    { c with outputDir := output, denyWarnings := deny }.validate = .error fault := by
  have hoverlaps : c.overlapFaults.head? ≠ some fault := fun heq =>
    hfault (isAboutOutput_of_mem_overlapFaults (List.mem_of_head? heq))
  have hempty : (if c.outputDir.isEmpty then [ConfigFault.emptyDirectory "output_dir"]
      else []).head? ≠ some fault := by
    intro heq
    split at heq
    · obtain rfl := Option.some.inj heq
      exact hfault rfl
    · cases heq
  rw [validate_eq_error_iff, faults_eq] at h ⊢
  -- so the fault is one of the sources or of the extension, and these are the same
  simp only [List.head?_append, Option.or_eq_some_iff, hoverlaps, hempty, and_false, or_false] at h
  rw [if_neg (by simpa using houtput), List.append_nil]
  simp only [List.head?_append, Option.or_eq_some_iff]
  rcases h with h | ⟨hnone, h⟩
  · exact .inl (.inl h)
  · exact .inl (.inr ⟨(Option.or_eq_none_iff.1 hnone).1, h⟩)

end SiteConfig

/-! ### What the command line and the file say -/

namespace Invocation

variable {i : Invocation} {w : World} {c : SiteConfig}

/-- The same command line with another configuration file. -/
def withConfig (i : Invocation) (path : FilePath) : Invocation :=
  { i with options := { i.options with config := some path } }

/-- A fault that is not about the output is not mended by the command line. -/
theorem validate_override_of_not_isAboutOutput {fault : ConfigFault}
    (h : c.validate = .error fault) (hfault : ¬ fault.IsAboutOutput)
    (hout : i.options.out ≠ some []) : (i.override c).validate = .error fault := by
  cases hoption : i.options.out with
  | none =>
    -- without the option, only warnings are treated in another way
    have hfaults : (i.override c).faults = c.faults := by
      rw [override, hoption]
      rfl
    rwa [SiteConfig.validate_eq_error_iff, hfaults, ← SiteConfig.validate_eq_error_iff]
  | some output =>
    rw [override, hoption]
    refine SiteConfig.validate_of_not_isAboutOutput h hfault (fun hnil => hout ?_) _
    rw [hoption, ← hnil]
    rfl

/-- **The command line goes before the file**, if the file is usable by itself: loading a site ends
as if the file had said what the command line says if and only if the file is usable, or what it
says has the same fault as what the command line makes of it. So it does whenever the file has no
fault, or one that is not about its output. And of two files that differ in the output alone, for
which the command line gives another one, loading ends in the same way if and only if they are found
usable or have the same fault. -/
theorem outcome_loadSite_iff (h : i.Reads w.files c) :
    ((i.loadSite.perform w).1 = ((Site.load i.root (i.override c)).perform w).1 ↔
      c.validate = .ok () ∨ c.validate = (i.override c).validate) ∧
    (i.options.out ≠ some [] → (∀ fault, c.validate = .error fault → ¬ fault.IsAboutOutput) →
      (i.loadSite.perform w).1 = ((Site.load i.root (i.override c)).perform w).1) ∧
    ∀ path output, i.options.out.isSome →
      (i.withConfig path).Reads w.files { c with outputDir := output } →
      ((i.loadSite.perform w).1 = ((i.withConfig path).loadSite.perform w).1 ↔
        i.validation c = i.validation { c with outputDir := output }) := by
  have hiff : (i.loadSite.perform w).1 = ((Site.load i.root (i.override c)).perform w).1 ↔
      c.validate = .ok () ∨ c.validate = (i.override c).validate := by
    rw [outcome_loadSite h, ← Site.ending_validate,
      Site.ending_eq_iff validate_override_of_validation id, validation_eq_iff]
  refine ⟨hiff, fun hout hfaults => hiff.2 ?_, fun path output hout h' => ?_⟩
  · cases hvalid : c.validate with
    | ok _ => exact .inl rfl
    | error fault =>
      exact .inr (validate_override_of_not_isAboutOutput hvalid (hfaults fault hvalid) hout).symm
  · -- the command line makes the same of both files
    obtain ⟨given, hgiven⟩ := Option.isSome_iff_exists.1 hout
    have hsame : i.override { c with outputDir := output } = i.override c := by
      rw [override, override, hgiven]
      rfl
    have hother : ((i.withConfig path).loadSite.perform w).1
        = Site.ending i.root (i.override c) w (i.validation { c with outputDir := output }) := by
      rw [← hsame]
      exact outcome_loadSite h'
    rw [outcome_loadSite h, hother]
    refine Site.ending_eq_iff validate_override_of_validation fun hok => ?_
    rw [← hsame]
    exact validate_override_of_validation hok

/-! ### A file that is in its own way -/

/-- A configuration file whose output is the directory of static files. -/
def intoStatic : Text :=
  "\x7b\"output_dir\":\"static\"\x7d".toList

/-- The same file with another output. -/
def intoPublic : Text :=
  "\x7b\"output_dir\":\"public\"\x7d".toList

/-- What is configured where only the output is. -/
def standardInto (output : FilePath) : SiteConfig :=
  { SiteConfig.standard with outputDir := output }

/-- A directory with two configuration files. -/
def twoConfigs (first second : ByteArray) : FileSystem :=
  ⟨.directory [("brace.json".toList, .file first), ("other.json".toList, .file second)], []⟩

/-- A world with the two files. -/
def configured : World :=
  ⟨twoConfigs (Text.toBytes intoStatic) (Text.toBytes intoPublic), []⟩

/-- A command line that gives an output. -/
def buildIntoDist : Invocation :=
  ⟨.build, ⟨none, none, some "dist".toList, false⟩, ⟨0, false⟩⟩

theorem find_twoConfigs (first second : ByteArray) :
    (twoConfigs first second).find "./brace.json".toList
        = .ok (["brace.json".toList], .file first) ∧
      (twoConfigs first second).find "other.json".toList
        = .ok (["other.json".toList], .file second) := by
  constructor
  · cbv
  · cbv

theorem isWrittenAs_intoStatic : (standardInto "static".toList).IsWrittenAs intoStatic := by
  refine ⟨.object [("output_dir".toList.map .char, .string ("static".toList.map .char))], ?_, rfl⟩
  cbv

theorem isWrittenAs_intoPublic : (standardInto "public".toList).IsWrittenAs intoPublic := by
  refine ⟨.object [("output_dir".toList.map .char, .string ("public".toList.map .char))], ?_, rfl⟩
  cbv

theorem reads_of_find {path : FilePath} {place : Place} {t : Text} (hpath : i.configPath = path)
    (h : w.files.find path = .ok (place, .file (Text.toBytes t))) (hc : c.IsWrittenAs t) :
    i.Reads w.files c := by
  refine ⟨t, ?_, hc⟩
  rw [hpath, FileSystem.readText, FileSystem.read, h]
  simp only [Text.ofBytes?_toBytes]

theorem reads_buildIntoDist :
    buildIntoDist.Reads configured.files (standardInto "static".toList) ∧
      (buildIntoDist.withConfig "other.json".toList).Reads configured.files
        (standardInto "public".toList) :=
  ⟨reads_of_find rfl (find_twoConfigs ..).1 isWrittenAs_intoStatic,
    reads_of_find rfl (find_twoConfigs ..).2 isWrittenAs_intoPublic⟩

/-- What there is to load can be loaded, whatever the configuration files say. -/
theorem isOk_load_twoConfigs (first second : ByteArray) :
    ((Site.load ['.'] (standardInto "dist".toList)).perform ⟨twoConfigs first second, []⟩).1.isOk
      = true := by
  cbv

theorem validate_standardInto :
    (standardInto "static".toList).validate = .error (.overlap .same "static_dir") ∧
      (standardInto "public".toList).validate = .ok () ∧
      (standardInto "dist".toList).validate = .ok () := by
  decide

/-- **The output in the file is in the way** of the one that is given: loading fails because of the
file, though it succeeds with what the command line makes of it, and also with the other file. -/
theorem loadSite_intoStatic_ne :
    buildIntoDist.Reads configured.files (standardInto "static".toList) ∧
      buildIntoDist.override (standardInto "static".toList) = standardInto "dist".toList ∧
      (buildIntoDist.loadSite.perform configured).1
        = .error (.config (.overlap .same "static_dir")) ∧
      ((Site.load buildIntoDist.root (standardInto "dist".toList)).perform configured).1.isOk
        = true ∧
      ((buildIntoDist.withConfig "other.json".toList).loadSite.perform configured).1.isOk
        = true := by
  obtain ⟨hfirst, hsecond⟩ := reads_buildIntoDist
  obtain ⟨hstatic, hpublic, hdist⟩ := validate_standardInto
  -- with the flag, both files come to the same configuration, and only one of them is refused
  have hover : (buildIntoDist.withConfig "other.json".toList).override
      (standardInto "public".toList) = standardInto "dist".toList := rfl
  refine ⟨hfirst, rfl, ?_, isOk_load_twoConfigs .., ?_⟩
  · rw [outcome_loadSite hfirst, validation, hstatic]
    rfl
  · rw [outcome_loadSite hsecond, validation, hpublic, hover, hdist]
    exact isOk_load_twoConfigs ..

/-- So the condition fails for the one file, and the two files are told apart. -/
theorem outcome_loadSite_buildIntoDist :
    buildIntoDist.Reads configured.files (standardInto "static".toList) ∧
      (buildIntoDist.withConfig "other.json".toList).Reads configured.files
        (standardInto "public".toList) ∧
      (buildIntoDist.loadSite.perform configured).1
        ≠ ((Site.load buildIntoDist.root (standardInto "dist".toList)).perform configured).1 ∧
      (buildIntoDist.loadSite.perform configured).1
        ≠ ((buildIntoDist.withConfig "other.json".toList).loadSite.perform configured).1 := by
  obtain ⟨hfirst, hsecond⟩ := reads_buildIntoDist
  obtain ⟨hstatic, hpublic, hdist⟩ := validate_standardInto
  obtain ⟨hiff, -, hfiles⟩ := outcome_loadSite_iff hfirst
  have hover (output : FilePath) :
      buildIntoDist.override (standardInto output) = standardInto "dist".toList := rfl
  refine ⟨hfirst, hsecond, fun heq => ?_, fun heq => ?_⟩
  -- as it is read, the file is at fault; with the flag it is not
  · have hfault := hiff.1 heq
    rw [hover, hstatic, hdist] at hfault
    rcases hfault with hfault | hfault <;> cases hfault
  · have hsame := (hfiles "other.json".toList "public".toList rfl hsecond).1 heq
    change buildIntoDist.validation (standardInto "static".toList)
      = buildIntoDist.validation (standardInto "public".toList) at hsame
    rw [validation, validation, hover, hstatic, hpublic, hdist] at hsame
    cases hsame

end Invocation

end Stencil
