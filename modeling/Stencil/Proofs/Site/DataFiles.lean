import Stencil.Proofs.File.Entry
import Stencil.Proofs.Glob.Listing
import Stencil.Proofs.Json.Meaning
import Stencil.Proofs.Site.Loading
import Stencil.Site.Data

/-!
# What data files become

Loading the data of a site is all or nothing. Either every data file can be used, and then the
context binds the stems of their names to what they mean; or the first file that cannot be used, in
the order of the bytes of the names, stops it with an error about that file. Nothing else in the
directory matters, and neither does what is further down. This is about trees in which all names are
texts; a data file whose name is not UTF-8 would be passed over.

* `mem_dataContents_iff`, `pairwise_dataContents` — the data files are the files directly in the
  directory with the extension `json`, in the order of their names;
* `SiteAction.perform_readAllData` — reading them one after the other comes to what `gather` says,
  which looks at nothing but their names and contents;
* `SiteAction.loadData_gathers` — so loading data comes to what the data files decide.
-/

namespace Stencil

/-! ### Names of data files -/

/-- The name of the file that a name of the context comes from. -/
def dataFileName (name : Text) : Text :=
  name ++ ".json".toList

/-- **A data file** is one with a stem and the extension `json`. -/
theorem dataName?_eq_some_iff {fileName name : Text} :
    dataName? fileName = some name ↔ name ≠ [] ∧ fileName = dataFileName name := by
  have hcut {stem extension : Text} (hpoint : '.' ∉ extension) :
      Text.cutAtLast? (· = '.') (stem ++ '.' :: extension) = some (stem, extension) :=
    Text.cutAtLast?_append_cons stem (FilePath.forall_eq_false_of_notMem hpoint) rfl
  constructor
  · intro h
    unfold dataName? at h
    split at h
    · next stem extension hextension =>
      split at h
      · next hjson =>
        obtain rfl := Option.some.inj h
        obtain ⟨hlast, hstem⟩ := Option.filter_eq_some_iff.1 hextension
        obtain ⟨c, hc, rfl⟩ := Text.cutAtLast?_eq_some hlast
        obtain rfl : c = '.' := of_decide_eq_true hc
        -- a name that begins with its last point has no extension
        refine ⟨fun hnil => ?_, ?_⟩
        · rw [hnil] at hstem
          cases hstem
        · rw [hjson]
          rfl
      · cases h
    · cases h
  · rintro ⟨hne, rfl⟩
    have hlast : Text.cutAtLast? (· = '.') (dataFileName name) = some (name, "json".toList) :=
      hcut (by decide)
    obtain ⟨c, rest, rfl⟩ := List.exists_cons_of_ne_nil hne
    rw [dataName?, FilePath.cutExtension?, hlast]
    rfl

/-- The name that an entry of a directory becomes, and its content, if it is a data file. -/
def dataContent? (entry : Text × Node) : Option (Text × ByteArray) :=
  match entry.2 with
  | .file content => (dataName? entry.1).map fun name => (name, content)
  | _ => none

theorem dataContent?_eq_some_iff {entry : Text × Node} {name : Text} {content : ByteArray} :
    dataContent? entry = some (name, content) ↔
      name ≠ [] ∧ entry = (dataFileName name, .file content) := by
  obtain ⟨fileName, node⟩ := entry
  cases node with
  | file content' =>
    show (dataName? fileName).map _ = _ ↔ _
    rw [Option.map_eq_some_iff]
    constructor
    · rintro ⟨name', hname, heq⟩
      obtain ⟨rfl, rfl⟩ := Prod.mk.inj heq
      obtain ⟨hne, rfl⟩ := dataName?_eq_some_iff.1 hname
      exact ⟨hne, rfl⟩
    · rintro ⟨hne, heq⟩
      obtain ⟨rfl, hcontent⟩ := Prod.mk.inj heq
      obtain rfl := Node.file.inj hcontent
      exact ⟨name, dataName?_eq_some_iff.2 ⟨hne, rfl⟩, rfl⟩
  -- only files are data files
  | link target => exact iff_of_false nofun fun h => nomatch h.2
  | directory entries => exact iff_of_false nofun fun h => nomatch h.2

/-- The data files among the entries of a directory. -/
def dataContents (entries : List (Text × Node)) : List (Text × ByteArray) :=
  entries.filterMap dataContent?

theorem dataFiles_eq_map (entries : List (Text × Node)) :
    dataFiles entries = (dataContents entries).map fun e => (e.1, dataFileName e.1) := by
  rw [dataFiles, dataContents, List.map_filterMap]
  apply List.filterMap_congr
  rintro ⟨fileName, node⟩ -
  cases node with
  | file content =>
    show (dataName? fileName).map _ = ((dataName? fileName).map _).map _
    -- the file is named as its name of the context says
    cases hname : dataName? fileName with
    | none => rfl
    | some name => rw [(dataName?_eq_some_iff.1 hname).2]; rfl
  | link target => rfl
  | directory entries => rfl

theorem mem_dataContents_iff {entries : List (Text × Node)} {name : Text} {content : ByteArray} :
    (name, content) ∈ dataContents entries ↔
      name ≠ [] ∧ (dataFileName name, .file content) ∈ entries := by
  rw [dataContents, List.mem_filterMap]
  constructor
  · rintro ⟨entry, hentry, h⟩
    obtain ⟨hne, rfl⟩ := dataContent?_eq_some_iff.1 h
    exact ⟨hne, hentry⟩
  · rintro ⟨hne, hentry⟩
    exact ⟨_, hentry, dataContent?_eq_some_iff.2 ⟨hne, rfl⟩⟩

/-- Whether data files **come in the order of their names**, the extension included. -/
def InFileOrder (data : List (Text × ByteArray)) : Prop :=
  data.Pairwise fun d e => dataFileName d.1 < dataFileName e.1

theorem inFileOrder_dataContents {entries : List (Text × Node)}
    (h : entries.Pairwise (·.1 < ·.1)) : InFileOrder (dataContents entries) := by
  rw [InFileOrder, dataContents, List.pairwise_filterMap]
  refine h.imp ?_
  rintro entry entry' hlt ⟨name, content⟩ hd ⟨name', content'⟩ he
  obtain ⟨-, rfl⟩ := dataContent?_eq_some_iff.1 hd
  obtain ⟨-, rfl⟩ := dataContent?_eq_some_iff.1 he
  exact hlt

/-- No two data files become the same name. -/
theorem InFileOrder.nodup {data : List (Text × ByteArray)} (h : InFileOrder data) :
    (data.map (·.1)).Nodup := by
  rw [List.Nodup, List.pairwise_map]
  refine h.imp fun {d e} hlt heq => ?_
  rw [heq] at hlt
  exact List.lt_irrefl _ hlt

/-- Data files are listed in one way only. -/
theorem InFileOrder.eq {data others : List (Text × ByteArray)} (h : InFileOrder data)
    (hothers : InFileOrder others) (hmem : ∀ e, e ∈ data ↔ e ∈ others) : data = others := by
  have hperm : data.Perm others :=
    (List.perm_ext_iff_of_nodup h.nodup.of_map hothers.nodup.of_map).2 hmem
  refine hperm.eq_of_pairwise ?_ h hothers
  intro d e _ _ hde hed
  exact absurd hed (Std.Asymm.asymm _ _ hde)

/-- What comes first in a list with a head is the head, or the first behind it. -/
theorem exists_first_cons_iff {α : Type} {p q : α → Prop} {x : α} {xs : List α} :
    (∃ before e after, x :: xs = before ++ e :: after ∧ (∀ d ∈ before, p d) ∧ q e) ↔
      q x ∨ p x ∧ ∃ before e after, xs = before ++ e :: after ∧ (∀ d ∈ before, p d) ∧ q e := by
  constructor
  · rintro ⟨before, e, after, heq, hbefore, hq⟩
    cases before with
    | nil =>
      obtain ⟨rfl, -⟩ := List.cons.inj heq
      exact .inl hq
    | cons y before =>
      obtain ⟨rfl, hxs⟩ := List.cons.inj heq
      obtain ⟨hp, hbefore⟩ := List.forall_mem_cons.1 hbefore
      exact .inr ⟨hp, before, e, after, hxs, hbefore, hq⟩
  · rintro (hq | ⟨hp, before, e, after, rfl, hbefore, hq⟩)
    · exact ⟨[], x, xs, rfl, fun _ h => absurd h List.not_mem_nil, hq⟩
    · exact ⟨x :: before, e, after, rfl, List.forall_mem_cons.2 ⟨hp, hbefore⟩, hq⟩

/-- The first data file of some kind is the one with the first name. -/
theorem InFileOrder.exists_first_iff {data : List (Text × ByteArray)} (h : InFileOrder data)
    {p q : Text × ByteArray → Prop} :
    (∃ before e after, data = before ++ e :: after ∧ (∀ d ∈ before, p d) ∧ q e) ↔
      ∃ e ∈ data, q e ∧
        ∀ d ∈ data, (dataFileName d.1).bytes < (dataFileName e.1).bytes → p d := by
  constructor
  · rintro ⟨before, e, after, rfl, hbefore, hq⟩
    refine ⟨e, List.mem_append_right _ List.mem_cons_self, hq, fun d hd hlt => ?_⟩
    have hlt := Text.bytes_lt_bytes_iff.1 hlt
    rcases List.mem_append.1 hd with hd | hd
    · exact hbefore d hd
    · -- what is not in front has no smaller name
      exfalso
      rcases List.mem_cons.1 hd with rfl | hd
      · exact List.lt_irrefl _ hlt
      · have hafter := (List.pairwise_append.1 h).2.1
        exact absurd hlt (Std.Asymm.asymm _ _ ((List.pairwise_cons.1 hafter).1 d hd))
  · rintro ⟨e, he, hq, hsmaller⟩
    obtain ⟨before, after, rfl⟩ := List.append_of_mem he
    refine ⟨before, e, after, rfl, fun d hd => ?_, hq⟩
    apply hsmaller d (List.mem_append_left _ hd)
    exact Text.bytes_lt_bytes ((List.pairwise_append.1 h).2.2 d hd e List.mem_cons_self)

/-- Whether a file with that content is **a data file** of a directory: it is directly in it, and
has the extension `json` behind the name that it becomes. -/
def FileSystem.HasData (fs : FileSystem) (directory : FilePath) (name : Text)
    (content : ByteArray) : Prop :=
  name ≠ [] ∧ fs.HasFile directory [dataFileName name] content

theorem FileSystem.hasData_iff {fs : FileSystem} (hfs : fs.Unlinked) {directory : FilePath}
    {place : Place} {entries : List (Text × Node)}
    (hfind : fs.find directory = .ok (place, .directory entries)) {name : Text}
    {content : ByteArray} :
    fs.HasData directory name content ↔ (name, content) ∈ dataContents entries := by
  have hwell := wellFormed_of_find hfs.wellFormed hfind
  rw [HasData, hasFile_iff hfind, mem_dataContents_iff,
    ← NameMap.find?_eq_some_iff (Node.wellFormed_directory_iff.1 hwell).1]
  refine and_congr_right fun _ => ?_
  show (NameMap.find? _ entries).bind _ = _ ↔ _
  cases NameMap.find? (dataFileName name) entries with
  | none => exact Iff.rfl
  | some child => exact Iff.rfl

/-! ### Reading data files -/

/-- What reading a data file comes to. -/
def dataOutcome (directory : FilePath) (name : Text) (content : ByteArray) :
    Except SiteError Datum :=
  match FilePath.entryFault? directory (dataFileName name) with
  | some fault => .error (.access (directory.join (dataFileName name)) (.io fault))
  | none =>
    match Text.ofBytes? content with
    | none => .error (.access (directory.join (dataFileName name)) (.io .invalidText))
    | some t =>
      match Datum.ofJson t with
      | .ok datum => .ok datum
      | .error fault => .error (.json (directory.join (dataFileName name)) fault)

/-- What reading data files into a context comes to, one after the other. -/
def gather (directory : FilePath) (c : Context) :
    List (Text × ByteArray) → Except SiteError Context
  | [] => .ok c
  | (name, content) :: rest =>
    match dataOutcome directory name content with
    | .ok datum => gather directory (c.insertDatum name datum) rest
    | .error e => .error e

section Outcomes

variable {directory : FilePath} {name : Text} {content : ByteArray}

/-- Whether a data file **can be used**: the system takes the path to it, and it holds valid JSON in
UTF-8. -/
structure IsUsable (directory : FilePath) (name : Text) (content : ByteArray) : Prop where
  taken : FilePath.entryFault? directory (dataFileName name) = none
  valid : ∃ t d, Text.ofBytes? content = some t ∧ Datum.ofJson t = .ok d

/-- Whether an error says **what is wrong with a data file**; it always mentions the path to the
file. -/
inductive IsFaultOf (directory : FilePath) (name : Text) (content : ByteArray) : SiteError → Prop
  | path {fault : IoFault} (h : FilePath.entryFault? directory (dataFileName name) = some fault) :
    IsFaultOf directory name content (.access (directory.join (dataFileName name)) (.io fault))
  | text (htaken : FilePath.entryFault? directory (dataFileName name) = none)
    (h : Text.ofBytes? content = none) :
    IsFaultOf directory name content
      (.access (directory.join (dataFileName name)) (.io .invalidText))
  | json {t : Text} {fault : JsonFault}
    (htaken : FilePath.entryFault? directory (dataFileName name) = none)
    (ht : Text.ofBytes? content = some t) (h : Datum.ofJson t = .error fault) :
    IsFaultOf directory name content (.json (directory.join (dataFileName name)) fault)

/-- Whether a value is **what a data file means**. -/
def ContentMeans (content : ByteArray) (v : Value) : Prop :=
  ∃ t tree, Text.ofBytes? content = some t ∧ JsonTree.ofText? t = some tree ∧ tree.Means v

theorem dataOutcome_eq_error_iff {e : SiteError} :
    dataOutcome directory name content = .error e ↔ IsFaultOf directory name content e := by
  constructor
  · intro h
    -- the faults come in the order of the three kinds
    unfold dataOutcome at h
    split at h
    · next fault hfault =>
      obtain rfl := Except.error.inj h
      exact .path hfault
    · next htaken =>
      split at h
      · next htext =>
        obtain rfl := Except.error.inj h
        exact .text htaken htext
      · next t ht =>
        split at h
        · cases h
        · next fault hfault =>
          obtain rfl := Except.error.inj h
          exact .json htaken ht hfault
  · intro h
    cases h with
    | path hfault => simp only [dataOutcome, hfault]
    | text htaken htext => simp only [dataOutcome, htaken, htext]
    | json htaken ht hfault => simp only [dataOutcome, htaken, ht, hfault]

/-- What is read can be used, and becomes the value that the file means. -/
theorem of_dataOutcome_eq_ok {d : Datum} (h : dataOutcome directory name content = .ok d) :
    IsUsable directory name content ∧ ∃ v, d.toValue = .ok v ∧ ContentMeans content v := by
  unfold dataOutcome at h
  split at h
  · cases h
  · next htaken =>
    split at h
    · cases h
    · next t ht =>
      split at h
      · next datum hdatum =>
        obtain rfl := Except.ok.inj h
        refine ⟨⟨htaken, t, datum, ht, hdatum⟩, ?_⟩
        -- valid JSON is a tree first, and then the datum that the tree becomes
        unfold Datum.ofJson at hdatum
        split at hdatum
        · next tree htree =>
          obtain ⟨v, hv, hmeans⟩ := JsonTree.exists_means_of_toDatum hdatum
          exact ⟨v, hv, t, tree, ht, htree, hmeans⟩
        · cases hdatum
      · cases h

theorem exists_dataOutcome_iff :
    (∃ d, dataOutcome directory name content = .ok d) ↔ IsUsable directory name content := by
  constructor
  · rintro ⟨d, hd⟩
    exact (of_dataOutcome_eq_ok hd).1
  · rintro ⟨htaken, t, d, ht, hd⟩
    exact ⟨d, by simp only [dataOutcome, htaken, ht, hd]⟩

variable {c c' : Context} {data : List (Text × ByteArray)}

/-- **All data files are used, or none**: as soon as one of them cannot be used, nothing is
gathered. -/
theorem exists_gather_iff : (∃ c', gather directory c data = .ok c') ↔
    ∀ e ∈ data, IsUsable directory e.1 e.2 := by
  induction data generalizing c with
  | nil => exact iff_of_true ⟨c, rfl⟩ fun _ h => absurd h List.not_mem_nil
  | cons e data ih =>
    rw [List.forall_mem_cons, ← exists_dataOutcome_iff, gather]
    cases dataOutcome directory e.1 e.2 with
    | ok d => exact ih.trans (and_iff_right ⟨d, rfl⟩).symm
    | error fault => exact iff_of_false (fun h => nomatch h) fun h => nomatch h.1

/-- **The first data file that cannot be used** is what gathering stops at. -/
theorem gather_eq_error_iff {fault : SiteError} : gather directory c data = .error fault ↔
    ∃ before e after, data = before ++ e :: after ∧
      (∀ d ∈ before, IsUsable directory d.1 d.2) ∧ IsFaultOf directory e.1 e.2 fault := by
  induction data generalizing c with
  | nil =>
    refine iff_of_false nofun ?_
    rintro ⟨before, e, after, heq, -⟩
    exact absurd heq.symm (List.append_ne_nil_of_right_ne_nil _ (List.cons_ne_nil _ _))
  | cons e data ih =>
    rw [gather, exists_first_cons_iff]
    -- the first file is at fault, or it can be used and the fault is further on
    cases houtcome : dataOutcome directory e.1 e.2 with
    | ok d =>
      have husable := (of_dataOutcome_eq_ok houtcome).1
      have hnot : ¬ IsFaultOf directory e.1 e.2 fault := by
        rw [← dataOutcome_eq_error_iff, houtcome]
        exact nofun
      rw [or_iff_right hnot, and_iff_right husable]
      exact ih
    | error fault' =>
      have hnot : ¬ IsUsable directory e.1 e.2 := by
        rw [← exists_dataOutcome_iff, houtcome]
        exact fun ⟨_, h⟩ => nomatch h
      rw [← dataOutcome_eq_error_iff, houtcome, or_iff_left fun h => hnot h.1,
        Except.error.injEq, Except.error.injEq]

/-- **What was gathered** is bound under the names of the files, and nothing else is new. -/
theorem get?_of_gather (hnodup : (data.map (·.1)).Nodup) (h : gather directory c data = .ok c') :
    (∀ e ∈ data, ∃ v, c'.get? e.1 = some v ∧ ContentMeans e.2 v ∧ ¬ Value.undefined.Within v) ∧
      ∀ name ∉ data.map (·.1), c'.get? name = c.get? name := by
  induction data generalizing c with
  | nil =>
    obtain rfl := Except.ok.inj h
    exact ⟨fun _ h => absurd h List.not_mem_nil, fun _ _ => rfl⟩
  | cons e data ih =>
    obtain ⟨hnew, hrest⟩ := List.nodup_cons.1 hnodup
    rw [gather] at h
    cases houtcome : dataOutcome directory e.1 e.2 with
    | error fault =>
      rw [houtcome] at h
      cases h
    | ok d =>
      rw [houtcome] at h
      obtain ⟨hbound, hkept⟩ := ih hrest h
      obtain ⟨-, v, hv, hmeans⟩ := of_dataOutcome_eq_ok houtcome
      refine ⟨List.forall_mem_cons.2 ⟨⟨v, ?_, hmeans, Datum.not_undefined_within hv⟩, hbound⟩, ?_⟩
      · -- no later file has the name, so the value stays
        rw [hkept e.1 hnew, Context.insertDatum, NameMap.get?_insert, if_pos rfl, Datum.toValueD,
          hv]
      · intro name hname
        obtain ⟨hne, hnot⟩ := not_or.1 (mt List.mem_cons.2 hname)
        rw [hkept name hnot, Context.insertDatum, NameMap.get?_insert, if_neg hne]

theorem mem_keys_of_gather (hnodup : (data.map (·.1)).Nodup)
    (h : gather directory ∅ data = .ok c) : name ∈ c.keys ↔ name ∈ data.map (·.1) := by
  obtain ⟨hbound, hkept⟩ := get?_of_gather hnodup h
  constructor
  · intro hname
    -- a name that no data file has is bound no more than at first
    by_contra hnot
    obtain ⟨⟨k, v⟩, hentry, rfl⟩ := List.mem_map.1 hname
    have hget : c.get? k = some v := (NameMap.find?_eq_some_iff c.ordered).2 hentry
    rw [hkept k hnot] at hget
    cases hget
  · intro hname
    obtain ⟨e, he, rfl⟩ := List.mem_map.1 hname
    obtain ⟨v, hv, -⟩ := hbound e he
    exact NameMap.mem_keys_of_get? hv

end Outcomes

namespace SiteAction

variable {w : World} {directory : FilePath} {place : Place} {entries : List (Text × Node)}

theorem perform_readText (path : FilePath) (w : World) :
    (readText path).perform w
      = (match w.files.readText path with
        | .ok t => .ok t
        | .error fault => .error (.access path (.io fault)), w) := by
  show (accessing path (w.files.readText path)).perform w = _
  cases w.files.readText path with
  | ok t => rfl
  | error fault => rfl

/-- **What reading a data file comes to** is decided by its name and its content. -/
theorem perform_readData (hfs : w.files.Unlinked)
    (hfind : w.files.find directory = .ok (place, .directory entries)) {name : Text}
    {content : ByteArray} (hentry : (dataFileName name, .file content) ∈ entries) :
    ((readData (directory.join (dataFileName name))).perform w).1
      = dataOutcome directory name content := by
  have hread := FileSystem.readText_join hfs hfind hentry
  rw [readData, perform_bind_of_ok (perform_log _ _ w), perform_bind, perform_readText,
    dataOutcome]
  simp only [hread]
  -- a path that is not taken, a content that is no text, a text that is no JSON
  cases FilePath.entryFault? directory (dataFileName name) with
  | some fault => rfl
  | none =>
    cases Text.ofBytes? content with
    | none => rfl
    | some t =>
      simp only [Option.elim_none, Option.elim_some]
      cases Datum.ofJson t with
      | ok datum => rfl
      | error fault => rfl

/-- **Reading data files one after the other** comes to what their names and contents decide. -/
theorem perform_readAllData (hfs : w.files.Unlinked)
    (hfind : w.files.find directory = .ok (place, .directory entries))
    {data : List (Text × ByteArray)} (hdata : ∀ e ∈ data, (dataFileName e.1, .file e.2) ∈ entries)
    (c : Context) :
    ((readAllData directory c (data.map fun e => (e.1, dataFileName e.1))).perform w).1
      = gather directory c data := by
  induction data generalizing c w with
  | nil => rfl
  | cons e data ih =>
    obtain ⟨hentry, hrest⟩ := List.forall_mem_cons.1 hdata
    have hread := perform_readData hfs hfind hentry
    -- reading a file changes no files, so the next one is read from the same
    have hfiles := heldByLoading_readsOnly.readData (directory.join (dataFileName e.1)) w
    rw [List.map_cons, readAllData, gather, perform_bind, ← hread]
    generalize (readData (directory.join (dataFileName e.1))).perform w = done at hfiles
    obtain ⟨r, w'⟩ := done
    have hfiles : w'.files = w.files := hfiles
    cases r with
    | ok datum => exact ih (hfiles ▸ hfs) (hfiles ▸ hfind) hrest _
    | error e => rfl

theorem perform_files (w : World) : files.perform w = (.ok w.files, w) :=
  rfl

theorem perform_loadData_of_find
    (hfind : w.files.find directory = .ok (place, .directory entries)) :
    (loadData directory).perform w = (readAllData directory ∅ (dataFiles entries)).perform w := by
  rw [loadData, perform_bind_of_ok (perform_files w)]
  simp only [hfind]

/-- A missing directory means that there is no data. -/
theorem perform_loadData_of_ne
    (h : ∀ place entries, w.files.find directory ≠ .ok (place, .directory entries)) :
    ((loadData directory).perform w).1 = .ok ∅ := by
  rw [loadData, perform_bind_of_ok (perform_files w)]
  split
  · next place entries hfind => exact absurd hfind (h place entries)
  · rfl

/-- **Loading data** comes to what the data files decide, taken in the order of their names. -/
theorem loadData_gathers (hfs : w.files.Unlinked) (directory : FilePath) :
    ∃ data, InFileOrder data ∧
      (∀ name content, (name, content) ∈ data ↔ w.files.HasData directory name content) ∧
      ((loadData directory).perform w).1 = gather directory ∅ data := by
  by_cases hfind : ∃ place entries, w.files.find directory = .ok (place, .directory entries)
  · obtain ⟨place, entries, hfind⟩ := hfind
    have hwell := FileSystem.wellFormed_of_find hfs.wellFormed hfind
    have hordered := (Node.wellFormed_directory_iff.1 hwell).1
    refine ⟨dataContents entries, inFileOrder_dataContents hordered,
      fun name content => (FileSystem.hasData_iff hfs hfind).symm, ?_⟩
    rw [perform_loadData_of_find hfind, dataFiles_eq_map]
    exact perform_readAllData hfs hfind (fun e he => (mem_dataContents_iff.1 he).2) ∅
  · have hnone : ∀ place entries, w.files.find directory ≠ .ok (place, .directory entries) :=
      fun place entries h => hfind ⟨place, entries, h⟩
    -- there is no directory, and so no data file
    refine ⟨[], .nil, fun name content => iff_of_false List.not_mem_nil ?_,
      perform_loadData_of_ne hnone⟩
    rintro ⟨-, place, n, hfound, hat⟩
    cases n with
    | directory entries => exact hnone place entries hfound
    | file content => cases hat
    | link target => cases hat

/-- Whether a result of loading data **is decided by the data files** of a directory. -/
structure DecidedByData (fs : FileSystem) (directory : FilePath)
    (r : Except SiteError Context) : Prop where
  /-- Loading succeeds if and only if all data files can be used. -/
  succeeds_iff : (∃ c, r = .ok c) ↔
    ∀ name content, fs.HasData directory name content → IsUsable directory name content
  /-- Then the names of the context are those of the data files. -/
  mem_keys_iff : ∀ c, r = .ok c →
    ∀ name, name ∈ c.keys ↔ ∃ content, fs.HasData directory name content
  /-- Each has the value that its own file means, and nothing is left out of it. -/
  bound : ∀ c, r = .ok c → ∀ name content, fs.HasData directory name content →
    ∃ v, c.get? name = some v ∧ ContentMeans content v ∧ ¬ Value.undefined.Within v
  /-- Otherwise loading stops with what is wrong with the first data file that cannot be used, in
  the order of the bytes of the file names. -/
  stops_iff : ∀ e, r = .error e ↔ ∃ name content, fs.HasData directory name content ∧
    IsFaultOf directory name content e ∧
    ∀ other content', fs.HasData directory other content' →
      (dataFileName other).bytes < (dataFileName name).bytes → IsUsable directory other content'

/-- **Loading data is all or nothing**, and is decided by the data files of the directory. Nothing
else in the file system matters: whatever is there besides, the result is the same. -/
theorem decidedByData_loadData (hfs : w.files.Unlinked) (directory : FilePath) :
    DecidedByData w.files directory ((loadData directory).perform w).1 ∧
      ∀ w' : World, w'.files.Unlinked →
        (∀ name content, w'.files.HasData directory name content ↔
          w.files.HasData directory name content) →
        ((loadData directory).perform w').1 = ((loadData directory).perform w).1 := by
  obtain ⟨data, horder, hdata, hgather⟩ := loadData_gathers hfs directory
  rw [hgather]
  refine ⟨⟨?_, fun c hc name => ?_, fun c hc name content hfile => ?_, fun e => ?_⟩,
    fun w' hfs' hsame => ?_⟩
  · rw [exists_gather_iff, Prod.forall]
    simp only [hdata]
  · rw [mem_keys_of_gather horder.nodup hc, List.mem_map]
    simp only [Prod.exists, exists_and_right, exists_eq_right, hdata]
  · exact (get?_of_gather horder.nodup hc).1 _ ((hdata name content).2 hfile)
  · rw [gather_eq_error_iff, horder.exists_first_iff]
    simp only [Prod.exists, Prod.forall, hdata]
  · -- the same files are listed in the same order
    obtain ⟨data', horder', hdata', hgather'⟩ := loadData_gathers hfs' directory
    have hlists : data' = data := horder'.eq horder fun e =>
      (hdata' e.1 e.2).trans ((hsame e.1 e.2).trans (hdata e.1 e.2).symm)
    rw [hgather', hlists]

/-! ### A directory with data files -/

/-- A world with a directory that has two data files, and a directory and a file that are none. -/
def twoDataFiles : World :=
  ⟨⟨.directory [("data".toList, .directory
    [("live.json".toList, .file "true".toUTF8),
      ("nested.json".toList, .directory [("deep.json".toList, .file "?".toUTF8)]),
      ("notes.txt".toList, .file "?".toUTF8),
      ("site.json".toList, .file "\x7b\"z\": 1, \"a\": [2]\x7d".toUTF8)])], []⟩, []⟩

theorem unlinked_twoDataFiles : twoDataFiles.files.Unlinked :=
  ⟨by decide, by decide⟩

/-- The two data files decide what loading the directory comes to. -/
theorem decidedByData_twoDataFiles :
    twoDataFiles.files.Unlinked ∧
      DecidedByData twoDataFiles.files "data".toList
        ((loadData "data".toList).perform twoDataFiles).1 ∧
      ∀ w' : World, w'.files.Unlinked →
        (∀ name content, w'.files.HasData "data".toList name content ↔
          twoDataFiles.files.HasData "data".toList name content) →
        ((loadData "data".toList).perform w').1
          = ((loadData "data".toList).perform twoDataFiles).1 :=
  ⟨unlinked_twoDataFiles, decidedByData_loadData unlinked_twoDataFiles "data".toList⟩

example : ((loadData "data".toList).perform twoDataFiles).1.toOption.map (·.keys)
    = some ["live".toList, "site".toList] := by
  cbv

/-! ### A path that is too long -/

/-- A name and then slashes, which lead nowhere further. -/
def slashesBehind (n : Nat) : FilePath :=
  'd' :: List.replicate n '/'

/-- A name of 246 letters. -/
def longName : Text :=
  List.replicate 246 'a'

/-- The entries of a directory with one data file, under that name. -/
def longEntries : List (Text × Node) :=
  [(dataFileName longName, .file "1".toUTF8)]

/-- A world with that directory. -/
def longNamed : World :=
  ⟨⟨.directory [(['d'], .directory longEntries)], []⟩, []⟩

theorem size_replicate (n : Nat) (c : Char) :
    Text.size (List.replicate n c) = n * c.utf8Size := by
  induction n with
  | zero => rw [Nat.zero_mul]; rfl
  | succ n ih => rw [List.replicate_succ, Text.size_cons, ih, Nat.succ_mul, Nat.add_comm]

theorem pieces_replicate (n : Nat) :
    Text.pieces '/' (List.replicate n '/') = List.replicate (n + 1) [] := by
  induction n with
  | zero => rfl
  | succ n ih => rw [List.replicate_succ, Text.pieces, if_pos rfl, ih, ← List.replicate_succ]

theorem size_slashesBehind (n : Nat) : (slashesBehind n).size = 1 + n := by
  rw [slashesBehind, Text.size_cons, size_replicate]
  show 1 + n * 1 = 1 + n
  rw [Nat.mul_one]

theorem steps_slashesBehind (n : Nat) :
    (slashesBehind n).steps = .down ['d'] :: List.replicate n .stay := by
  have hpieces : Text.pieces '/' (slashesBehind n) = ['d'] :: List.replicate n [] := by
    rw [slashesBehind, Text.pieces, if_neg (by decide), pieces_replicate, List.replicate_succ]
  have hrelative : (slashesBehind n).isAbsolute = false := rfl
  rw [FilePath.steps, hpieces, hrelative, if_neg Bool.false_ne_true, List.map_cons,
    List.map_replicate]
  rfl

theorem unlinked_longNamed : longNamed.files.Unlinked :=
  ⟨by decide, by decide⟩

theorem find_slashesBehind {n : Nat} (h : n < maxPathSize) :
    longNamed.files.find (slashesBehind n) = .ok ([['d']], .directory longEntries) := by
  have hdirectory : longNamed.files.view [['d']] = some .directory := rfl
  have hsize := size_slashesBehind n
  have hnul : '\x00' ∉ slashesBehind n := by
    rw [slashesBehind, List.mem_cons, not_or]
    refine ⟨by decide, fun hmem => ?_⟩
    exact absurd (List.eq_of_mem_replicate hmem) (by decide)
  -- the slashes are steps to nowhere behind the one directory
  have hstay : ∀ x ∈ List.replicate n Step.stay, x = .stay := fun x => List.eq_of_mem_replicate
  have hplace : longNamed.files.placeOf (slashesBehind n) = [['d']] := by
    rw [FileSystem.placeOf_eq, steps_slashesBehind, Place.follow_down,
      Place.follow_of_forall_stay _ hstay]
    rfl
  rw [FileSystem.find_eq_ok_iff unlinked_longNamed.linkFree, steps_slashesBehind, hplace]
  refine ⟨⟨hnul, List.cons_ne_nil _ _, by omega⟩, ⟨rfl, by decide, nofun, ?_⟩, rfl, rfl⟩
  exact TreeView.passable_of_forall_stay hdirectory hstay

theorem size_longName : (dataFileName longName).size = 251 := by
  rw [dataFileName, longName, Text.size_append, size_replicate]
  rfl

/-- Joined to a path that is taken, the name may make one that is not. -/
theorem entryFault?_slashesBehind {n : Nat} (h : maxPathSize < n + 251) :
    FilePath.entryFault? (slashesBehind n) (dataFileName longName) = some .nameTooLong := by
  have hname : Node.IsName (dataFileName longName) := by decide
  have hnul : '\x00' ∉ dataFileName longName := by
    rw [dataFileName, longName, List.mem_append, not_or]
    exact ⟨fun hmem => absurd (List.eq_of_mem_replicate hmem) (by decide), by decide⟩
  -- behind the directory, the name makes the path too long
  have hjoin : maxPathSize < ((slashesBehind n).join (dataFileName longName)).size :=
    calc maxPathSize
        < n + 251 := h
      _ ≤ 1 + n + 251 := Nat.add_le_add_right (Nat.le_add_left n 1) 251
      _ = (slashesBehind n).size + (dataFileName longName).size := by
        rw [size_slashesBehind, size_longName]
      _ ≤ ((slashesBehind n).join (dataFileName longName)).size :=
        FilePath.size_add_size_le_size_join hname
  rw [FilePath.entryFault?, if_neg hnul, if_pos (.inl hjoin)]

/-- **Valid JSON is not enough**: here the one data file of a directory holds valid JSON, but
nothing is loaded, because the path to the file is longer than a path can be. -/
theorem not_loads_longNamed :
    longNamed.files.Unlinked ∧
      longNamed.files.HasData (slashesBehind 3899) longName "1".toUTF8 ∧
      (∀ name content, longNamed.files.HasData (slashesBehind 3899) name content →
        ∃ t d, Text.ofBytes? content = some t ∧ Datum.ofJson t = .ok d) ∧
      ¬ ∃ c, ((loadData (slashesBehind 3899)).perform longNamed).1 = .ok c := by
  have hfind := find_slashesBehind (show 3899 < maxPathSize by decide)
  have hlong := entryFault?_slashesBehind (show maxPathSize < 3899 + 251 by decide)
  have hfile : longNamed.files.HasData (slashesBehind 3899) longName "1".toUTF8 := by
    rw [FileSystem.hasData_iff unlinked_longNamed hfind, mem_dataContents_iff]
    exact ⟨by decide, List.mem_singleton_self _⟩
  refine ⟨unlinked_longNamed, hfile, fun name content h => ?_, ?_⟩
  · rw [FileSystem.hasData_iff unlinked_longNamed hfind, mem_dataContents_iff] at h
    obtain ⟨-, hcontent⟩ := Prod.mk.inj (List.mem_singleton.1 h.2)
    obtain rfl := Node.file.inj hcontent
    exact ⟨['1'], .unsigned 1, Text.ofBytes?_toBytes ['1'], by cbv⟩
  -- if something were loaded, the path to the file would be taken
  · rintro ⟨c, hc⟩
    obtain ⟨data, -, hdata, hgather⟩ := loadData_gathers unlinked_longNamed (slashesBehind 3899)
    rw [hgather] at hc
    have husable := exists_gather_iff.1 ⟨c, hc⟩ _ ((hdata _ _).2 hfile)
    rw [husable.taken] at hlong
    cases hlong

end SiteAction

end Stencil
