import Stencil.Proofs.Render.Askable
import Stencil.Proofs.Render.Branches
import Stencil.Proofs.Render.Paths
import Stencil.Proofs.Site.Loading

/-!
# The flag of a page

While a page is rendered, `page_` with the name of the page behind it is true, so that a template
can ask which page it is on. Pages are named after files, and a name can have any characters in it
that a file can have; but a template asks by a path, which has characters of some kinds only, and in
which a point begins another segment.

* `renderIn_flagSource` — if the name can be asked for, asking for it tells its page from all
  others;
* `renderIn_pageContext_of_not_isAskable` — if not, the flag might as well not be there, whatever
  the template is;
* `Site.flag_of_load` — so it is on every site, if its data defines no such names itself.
-/

namespace Stencil

/-- The name that is true on a page. -/
def flagName (name : Text) : Text :=
  "page_".toList ++ name

/-- The source `{{#if page_name}}T{{else}}F{{/if}}`, which asks for the page of that name. -/
def flagSource (name : Text) : Text :=
  branchesOn (flagName name) ['T'] ['F']

example : flagSource "index".toList
    = "\x7b\x7b#if page_index\x7d\x7dT\x7b\x7belse\x7d\x7dF\x7b\x7b/if\x7d\x7d".toList := by
  decide

theorem isAskable_flagName_iff {name : Text} : IsAskable (flagName name) ↔ IsAskable name := by
  have hprefix : "page_".toList.all isPathChar = true := by decide
  have hpoint : '.' ∉ "page_".toList := by decide
  rw [IsAskable, flagName, List.forall_mem_append, List.mem_append, not_or]
  exact ⟨fun h => ⟨h.1.2, h.2.2⟩, fun h => ⟨⟨List.all_eq_true.1 hprefix, h.1⟩, hpoint, h.2⟩⟩

theorem flagName_ne_page (name : Text) : flagName name ≠ "page".toList := by
  intro h
  have hlength := congrArg List.length h
  rw [flagName, List.length_append] at hlength
  change 5 + name.length = 4 at hlength
  omega

/-! ### What a flag stands for -/

section Flags

variable {globals : Context} (hglobals : ∀ name, globals.get? (flagName name) = none)
include hglobals

/-- **A flag is true on its page**, and stands for nothing on the others. -/
theorem get_flagName (current name : Text) :
    (Scope.root (pageContext current) globals).get (flagName name)
      = if name = current then .bool true else .undefined := by
  have hflag : flagName name = "page_".toList ++ current ↔ name = current :=
    List.append_right_inj _
  have hempty : (∅ : Context).get? (flagName name) = none := rfl
  rw [Scope.get, pageContext, NameMap.get?_insert, NameMap.get?_insert,
    if_neg (flagName_ne_page name), hglobals, hempty]
  simp only [hflag]
  split <;> rfl

/-- A path that begins as a flag leads somewhere on its own page only, and only by its whole first
segment. -/
theorem lookup_flagName_of_ne {current path : Text} (h : path.firstPiece ≠ current) :
    (Scope.root (pageContext current) globals).lookup (flagName path) = .undefined := by
  have hfirst : (flagName path).firstPiece = flagName path.firstPiece :=
    Text.firstPiece_append (by decide) path
  rw [Scope.lookup_eq_resolve, Text.resolve_eq_descend, hfirst, get_flagName hglobals, if_neg h]
  cases ((flagName path).pieces '.').tail with
  | nil => rfl
  | cons segment segments => exact Value.descend_of_nothing (.inl rfl) segment segments

theorem lookup_flagName {current name : Text} (h : '.' ∉ name) :
    (Scope.root (pageContext current) globals).lookup (flagName name)
      = if name = current then .bool true else .undefined := by
  have hpoint : '.' ∉ flagName name := by
    rw [flagName, List.mem_append, not_or]
    exact ⟨by decide, h⟩
  rw [Scope.lookup_eq_resolve, Text.resolve_of_notMem _ hpoint, get_flagName hglobals]

end Flags

/-! ### The tag that asks for a flag -/

/-- The tag that asks for a page is one only if there is the name of a path in it. -/
theorem exists_of_lex?_flagSource {name : Text} {l : Lexed} (hbracket : '\x7d' ∉ name)
    (h : Tag.lex? (flagSource name) = some l) :
    ∃ bare blanks : Text, name = bare ++ blanks ∧ isPath (flagName bare) = true ∧
      blanks.IsBlanks := by
  have hnot : '\x7d' ∉ flagName name := by
    rw [flagName, List.mem_append, not_or]
    exact ⟨by decide, hbracket⟩
  have hsource : flagSource name = BlockKind.cond.openingTag (flagName name) ++
      (['T'] ++ alternativeTag ++ ['F'] ++ BlockKind.cond.closingTag) := by
    simp [flagSource, branchesOn]
  rw [hsource] at h
  have hspelling := BlockKind.isSpelling_of_lex?_openingTag hnot h
  obtain ⟨path, blanks, hsplit, hpath, hblanks⟩ := BlockKind.exists_of_isSpelling rfl hspelling
  have hsplit : "page_".toList ++ name = path ++ blanks := hsplit
  rcases List.append_eq_append_iff.1 hsplit with ⟨bare, rfl, hname⟩ | ⟨mark, hmark, rfl⟩
  · exact ⟨bare, blanks, hname, hpath, hblanks⟩
  · -- nothing of the mark is whitespace, so the path does not end within it
    cases mark with
    | nil =>
      rw [List.append_nil] at hmark
      refine ⟨[], name, rfl, ?_, fun c hc => hblanks c hc⟩
      rwa [flagName, List.append_nil, hmark]
    | cons c mark =>
      have hall : "page_".toList.all fun d => !Text.isBlank d := by decide
      have hc : c ∈ "page_".toList := hmark ▸ List.mem_append_right _ List.mem_cons_self
      have hnot := List.all_eq_true.1 hall c hc
      rw [Text.isBlank_iff.2 (hblanks c List.mem_cons_self)] at hnot
      cases hnot

/-! ### What is rendered -/

/-- What stands before the first tag of a section begins what is written. -/
theorem exists_output_of_nextTag {partials : Registry} {depth : Nat} {t : Template}
    {part : Section} {s : TagSplit} (h : nextTag part.text = some s) :
    ∃ rest, (renderSection partials depth t part).output = s.before ++ rest := by
  -- whatever the tag, the text in front of it is written first
  have hplain {y : Fragment} (hy : (s.token part.offset).plain? = some y) :
      ∃ rest, (renderSection partials depth t part).output = s.before ++ rest := by
    rw [renderSection_plain h hy, Rendered.append_assoc]
    exact ⟨_, rfl⟩
  cases htag : s.tag with
  | inclusion name => exact hplain (by rw [Token.plain?, tag_token, htag])
  | alternative => exact hplain (by rw [Token.plain?, tag_token, htag])
  | value path => exact hplain (by rw [Token.plain?, tag_token, htag])
  | closing kind =>
    rw [renderSection_closing h htag, Rendered.append_assoc]
    exact ⟨_, rfl⟩
  | opening kind path =>
    rw [renderSection_opening h htag, Rendered.append_assoc, Rendered.append_assoc]
    exact ⟨_, rfl⟩

/-- Brackets in front that open no tag are written. -/
theorem head?_output_of_lex?_none {partials : Registry} {t : Template} {scope : Scope} {rest : Text}
    (hsource : t.source = '\x7b' :: '\x7b' :: rest) (h : Tag.lex? t.source = none) :
    (renderTemplate partials t scope).output.head? = some '\x7b' := by
  let part : Section := ⟨t.source, 0, scope⟩
  have hnext : nextTag part.text = (nextTag rest).map fun s => (s.push '\x7b').push '\x7b' := by
    rw [hsource] at h
    change nextTag t.source = _
    rw [hsource, nextTag, h]
  rw [renderTemplate]
  change (renderSection partials _ t part).output.head? = _
  -- the brackets belong to the text in front of a later tag, or behind all tags
  cases hs : nextTag rest with
  | none =>
    rw [hs, Option.map_none] at hnext
    rw [renderSection_of_nextTag_none hnext]
    exact congrArg List.head? hsource
  | some s =>
    rw [hs, Option.map_some] at hnext
    obtain ⟨written, hwritten⟩ := exists_output_of_nextTag hnext
    rw [hwritten]
    rfl

theorem selfContained_of_nextTag_none {t : Text} (h : nextTag t = none) : SelfContained t := by
  have htags : tags t = [] := tags_of_nextTag_none h
  rw [SelfContained, htags]
  rfl

/-- **A source that asks for a page** writes which of the two it is, and has nothing to report. -/
theorem renderTemplate_flagSource {partials : Registry} {t : Template} {scope : Scope}
    {bare blanks : Text} (hpath : isPath (flagName bare) = true) (hblanks : blanks.IsBlanks)
    (hsource : t.source = flagSource (bare ++ blanks)) :
    renderTemplate partials t scope
      = .ofText (if (scope.lookup (flagName bare)).isTruthy then ['T'] else ['F']) := by
  obtain ⟨name, source, path⟩ := t
  obtain rfl : source = _ := hsource
  have hopen := BlockKind.cond.isSpelling_openingTag_append hpath hblanks
  have hyes : SelfContained ['T'] := selfContained_of_nextTag_none rfl
  have hno : SelfContained ['F'] := selfContained_of_nextTag_none rfl
  have htext : flagSource (bare ++ blanks) = BlockKind.cond.openingTag (flagName bare ++ blanks) ++
      (['T'] ++ alternativeTag ++ ['F'] ++ BlockKind.cond.closingTag) := by
    simp [flagSource, branchesOn, flagName]
  have hplain (text : Text) (h : nextTag text = none) :
      renderTemplate partials ⟨name, text, path⟩ scope = .ofText text :=
    renderSection_of_nextTag_none h
  have halone : renderTemplate partials ⟨name, if (scope.lookup (flagName bare)).isTruthy
      then ['T'] else ['F'], path⟩ scope
        = .ofText (if (scope.lookup (flagName bare)).isTruthy then ['T'] else ['F']) := by
    split
    · exact hplain _ rfl
    · exact hplain _ rfl
  have houtput := Observation.of_renderTemplate_spelled Observation.isPlaceless_output hopen hyes
    hno (by decide) (by decide) partials ⟨name, [], path⟩ scope
  have hfaults := Observation.of_renderTemplate_spelled Observation.isPlaceless_faults hopen hyes
    hno (by decide) (by decide) partials ⟨name, [], path⟩ scope
  simp only [halone, ← htext] at houtput hfaults
  -- the source writes what its branch would write, and has no more to report
  have hclean := List.map_eq_nil_iff.1 hfaults
  generalize renderTemplate partials ⟨name, flagSource (bare ++ blanks), path⟩ scope = r
    at houtput hclean ⊢
  obtain ⟨output, diagnostics⟩ := r
  obtain rfl : output = _ := houtput
  obtain rfl : diagnostics = [] := hclean
  rfl

section Flags

variable {e : Engine} (hglobals : ∀ name, e.globals.get? (flagName name) = none)
include hglobals

/-- **If the name can be asked for**, asking for it tells its page from all others. -/
theorem renderIn_flagSource {name : Text} (h : IsAskable name) {t : Template}
    (ht : t.source = flagSource name) (current : Text) :
    e.renderIn t (pageContext current) = .ofText (if current = name then ['T'] else ['F']) := by
  have hpath : isPath (flagName name) = true :=
    isPath_of_isAskable (isAskable_flagName_iff.2 h) (List.cons_ne_nil _ _)
  have hblanks : Text.IsBlanks [] := Text.isBlanks_iff.2 (by simp)
  rw [← List.append_nil name] at ht
  rw [Engine.renderIn, renderTemplate_flagSource hpath hblanks ht, lookup_flagName hglobals h.2]
  by_cases hname : name = current
  · rw [if_pos hname, if_pos hname.symm]
    rfl
  · rw [if_neg hname, if_neg (Ne.symm hname)]
    rfl

/-- And only then it does so on its own page, if there is no closing bracket in the name. -/
theorem isAskable_of_output {name : Text} (hbracket : '\x7d' ∉ name) {t : Template}
    (ht : t.source = flagSource name)
    (h : (e.renderIn t (pageContext name)).output = ['T']) : IsAskable name := by
  cases hlex : Tag.lex? (flagSource name) with
  | none =>
    -- the tag is text, and the first thing that is written is a bracket
    rw [← ht] at hlex
    have hhead : (e.renderIn t (pageContext name)).output.head? = some '\x7b' :=
      head?_output_of_lex?_none ht hlex
    rw [h] at hhead
    cases hhead
  | some l =>
    obtain ⟨bare, blanks, rfl, hpath, hblanks⟩ := exists_of_lex?_flagSource hbracket hlex
    rw [Engine.renderIn, renderTemplate_flagSource hpath hblanks ht] at h
    by_cases hfirst : bare.firstPiece = bare ++ blanks
    · -- the name is a first segment
      have haskable : IsAskable (flagName bare).firstPiece := isAskable_firstPiece hpath
      rw [flagName, Text.firstPiece_append (by decide), hfirst] at haskable
      exact isAskable_flagName_iff.1 haskable
    · rw [lookup_flagName_of_ne hglobals hfirst] at h
      cases h

/-- **If the name cannot be asked for**, the flag might as well not be there. -/
theorem renderIn_pageContext_of_not_isAskable {name : Text} (h : ¬ IsAskable name) (t : Template) :
    e.renderIn t (pageContext name)
      = e.renderIn t ((∅ : Context).insert "page".toList (.text name)) := by
  have hunasked : ¬ IsAskable (flagName name) := fun hname => h (isAskable_flagName_iff.1 hname)
  have hunbound : ((∅ : Context).insert "page".toList (.text name)).get? (flagName name)
      = none := by
    rw [NameMap.get?_insert, if_neg (flagName_ne_page name)]
    rfl
  exact renderTemplate_insert_page hunasked hunbound (hglobals name) rfl e.partials t

end Flags

/-! ### Sites -/

/-- Whether no data file of a directory defines a name that is kept for the flags of pages. -/
def FileSystem.DefinesNoFlag (fs : FileSystem) (directory : FilePath) : Prop :=
  ∀ place entries, fs.find directory = .ok (place, .directory entries) →
    ∀ file ∈ dataFiles entries, ∀ name, file.1 ≠ flagName name

namespace SiteAction

/-- Reading data binds the names of the files and no others. -/
theorem mem_of_readAllData {directory : FilePath} {context globals : Context}
    {files : List (Text × Text)} {w w' : World} {name : Text} {value : Value}
    (h : (readAllData directory context files).perform w = (.ok globals, w'))
    (hname : globals.get? name = some value) :
    context.get? name = some value ∨ ∃ file ∈ files, file.1 = name := by
  induction files generalizing context w with
  | nil =>
    obtain rfl := Except.ok.inj (Prod.mk.inj h).1
    exact .inl hname
  | cons file files ih =>
    obtain ⟨datum, v, -, h⟩ := perform_bind_eq_ok h
    -- the name was bound by this file, before it, or by one of the others
    rcases ih h with hfound | ⟨other, hother, hotherName⟩
    · rw [Context.insertDatum, NameMap.get?_insert] at hfound
      split at hfound
      · next heq => exact .inr ⟨file, List.mem_cons_self, heq.symm⟩
      · exact .inl hfound
    · exact .inr ⟨other, List.mem_cons_of_mem _ hother, hotherName⟩

theorem get?_flagName_of_loadData {directory : FilePath} {globals : Context} {w w' : World}
    (hdata : w.files.DefinesNoFlag directory)
    (h : (loadData directory).perform w = (.ok globals, w')) (name : Text) :
    globals.get? (flagName name) = none := by
  obtain ⟨fs, v, hfs, h⟩ := perform_bind_eq_ok h
  obtain rfl : w.files = fs := Except.ok.inj (Prod.mk.inj hfs).1
  obtain rfl : w = v := (Prod.mk.inj hfs).2
  cases hname : globals.get? (flagName name) with
  | none => rfl
  | some value =>
    split at h
    · next place entries hfind =>
      -- a global name is that of a data file
      rcases mem_of_readAllData h hname with hempty | ⟨file, hfile, hfileName⟩
      · cases hempty
      · exact absurd hfileName (hdata place entries hfind file hfile name)
    · obtain ⟨-, u, -, h⟩ := perform_bind_eq_ok h
      obtain rfl := Except.ok.inj (Prod.mk.inj h).1
      cases hname

end SiteAction

/-- **A page can be asked for** on a loaded site if and only if its name can be asked for. If so,
the source that asks for it writes whether it is rendered on that page, and there is nothing to
report; otherwise it does not even write so on the page itself, unless there is a closing bracket in
the name, and no template whatsoever depends on the flag of the page. -/
theorem Site.flag_of_load {root : FilePath} {c : SiteConfig} {w w' : World} {s : Site}
    (hdata : w.files.DefinesNoFlag (root.join c.dataDir))
    (h : (load root c).perform w = (.ok s, w')) (name : Text) :
    (IsAskable name → ∀ t : Template, t.source = flagSource name → ∀ current,
      s.engine.renderIn t (pageContext current)
        = .ofText (if current = name then ['T'] else ['F'])) ∧
    ('\x7d' ∉ name → ∀ t : Template, t.source = flagSource name →
      ((s.engine.renderIn t (pageContext name)).output = ['T'] ↔ IsAskable name)) ∧
    (¬ IsAskable name → ∀ t : Template, s.engine.renderIn t (pageContext name)
      = s.engine.renderIn t ((∅ : Context).insert "page".toList (.text name))) := by
  obtain ⟨-, ⟨v, hloaded⟩, -⟩ := loads_of_load h
  have hglobals := SiteAction.get?_flagName_of_loadData hdata hloaded
  refine ⟨fun haskable t ht current => renderIn_flagSource hglobals haskable ht current,
    fun hbracket t ht => ⟨isAskable_of_output hglobals hbracket ht, fun haskable => ?_⟩,
    renderIn_pageContext_of_not_isAskable hglobals⟩
  rw [renderIn_flagSource hglobals haskable ht, if_pos rfl]
  rfl

/-! ### Pages that ask for themselves -/

/-- A world with nothing but a site of one data file and three pages, each of which asks for
itself. -/
def askingPages : World :=
  ⟨⟨.directory [("site".toList, .directory [
    ("data".toList, .directory [("pages.json".toList, .file "[]".toUTF8)]),
    ("pages".toList, .directory [
      ("index.en.html".toList, .file (flagSource "index.en".toList).toBytes),
      ("index.html".toList, .file (flagSource "index".toList).toBytes),
      ("talks".toList, .directory [
        ("rust.html".toList, .file (flagSource "talks/rust".toList).toBytes)])])])], []⟩, []⟩

theorem pages_askingPages : ((Site.load "/site".toList .standard).perform
    askingPages).1.toOption.map (fun s =>
      (s.engine.templates.templates.entries.map fun e => (e.1, e.2.source),
        s.renderedPages.map fun p => (p.name, p.rendered.output.take 1)))
      = some (["index".toList, "index.en".toList, "talks/rust".toList].map
          fun name => (name, flagSource name),
        [("index".toList, ['T']), ("index.en".toList, ['F']),
          ("talks/rust".toList, ['\x7b'])]) := by
  cbv

theorem definesNoFlag_askingPages : askingPages.files.DefinesNoFlag "/site/data".toList := by
  intro place entries hfind file hfile name hname
  have hdata : askingPages.files.find "/site/data".toList = .ok (["site".toList, "data".toList],
      .directory [("pages.json".toList, .file "[]".toUTF8)]) := by cbv
  rw [hdata] at hfind
  obtain ⟨-, rfl⟩ := Prod.mk.inj (Except.ok.inj hfind) |>.imp id Node.directory.inj
  have hfiles : dataFiles [("pages.json".toList, .file "[]".toUTF8)]
      = [("pages".toList, "pages.json".toList)] := by cbv
  rw [hfiles, List.mem_singleton] at hfile
  subst hfile
  -- a flag is named with a mark that `pages` does not begin with
  have hmark := congrArg (List.take 5) hname
  change "pages".toList = "page_".toList at hmark
  exact absurd hmark (by decide)

/-- The page `index` is told from `talks/rust`, on which no template sees the flag. -/
theorem flag_askingPages :
    askingPages.files.DefinesNoFlag
        (FilePath.join "/site".toList SiteConfig.standard.dataDir) ∧
      IsAskable "index".toList ∧ ¬ IsAskable "talks/rust".toList ∧ '\x7d' ∉ "talks/rust".toList ∧
      ∃ s w', (Site.load "/site".toList .standard).perform askingPages = (.ok s, w') ∧
        (∀ t : Template, t.source = flagSource "index".toList →
          s.engine.renderIn t (pageContext "index".toList) = .ofText ['T'] ∧
            s.engine.renderIn t (pageContext "talks/rust".toList) = .ofText ['F']) ∧
        (∀ t : Template, t.source = flagSource "talks/rust".toList →
          (s.engine.renderIn t (pageContext "talks/rust".toList)).output ≠ ['T']) ∧
        ∀ t : Template, s.engine.renderIn t (pageContext "talks/rust".toList)
          = s.engine.renderIn t
              ((∅ : Context).insert "page".toList (.text "talks/rust".toList)) := by
  have hyes : IsAskable "index".toList := by decide
  have hno : ¬ IsAskable "talks/rust".toList := by decide
  have hbracket : '\x7d' ∉ "talks/rust".toList := by decide
  obtain ⟨s, w', hload, -⟩ := SiteAction.exists_perform_eq_ok pages_askingPages
  -- one site, asked about the page whose name can be asked for and about the other one
  obtain ⟨hindex, -, -⟩ := Site.flag_of_load definesNoFlag_askingPages hload "index".toList
  obtain ⟨-, hiff, hrust⟩ := Site.flag_of_load definesNoFlag_askingPages hload "talks/rust".toList
  refine ⟨definesNoFlag_askingPages, hyes, hno, hbracket, s, w', hload, fun t ht => ⟨?_, ?_⟩,
    fun t ht houtput => hno ((hiff hbracket t ht).1 houtput), hrust hno⟩
  · exact hindex hyes t ht _
  · exact hindex hyes t ht _

/-- The other pages do not find that they are themselves: the one writes that it is another page,
and the tag of the other one is text. -/
theorem flags_missed_askingPages :
    askingPages.files.DefinesNoFlag
        (FilePath.join "/site".toList SiteConfig.standard.dataDir) ∧
      ∃ s w', (Site.load "/site".toList .standard).perform askingPages = (.ok s, w') ∧
        (s.engine.templates.templates.entries.map fun e => (e.1, e.2.source))
          = ["index".toList, "index.en".toList, "talks/rust".toList].map
              (fun name => (name, flagSource name)) ∧
        (s.renderedPages.map fun p => (p.name, p.rendered.output.take 1))
          = [("index".toList, ['T']), ("index.en".toList, ['F']),
              ("talks/rust".toList, ['\x7b'])] := by
  obtain ⟨s, w', hload, hpages⟩ := SiteAction.exists_perform_eq_ok pages_askingPages
  obtain ⟨hsources, houtputs⟩ := Prod.mk.inj hpages
  exact ⟨definesNoFlag_askingPages, s, w', hload, hsources, houtputs⟩

end Stencil
