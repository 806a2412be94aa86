import Mathlib.Data.List.Induction
import Stencil.Proofs.Engine.Operations

/-!
# Loading again

An engine keeps the globs that it loaded from, and can load everything again. What that leads to is
settled by the globs and the files alone, whatever the engine has been through: each registry with a
glob becomes what a new engine would load from it, and all else stays.

* `Engine.templatesGlob_afterAll`, `Engine.partialsGlob_afterAll` — the glob that is kept is the
  last one that was given to load from, also if loading from it failed;
* `Engine.reload_eq_ok_iff` — loading again ends well in one engine (`Engine.IsReloaded`), and only
  if there is a glob and all files can be read;
* `Engine.reload_eq_of_reload_eq_ok` — loading again once more changes nothing;
* `Engine.reload_afterAll` — all of it, for every sequence of operations.
-/

namespace Stencil.Engine

/-! ### Sequences of operations -/

/-- An **operation on an engine**. -/
inductive Operation where
  | addTemplate (name source : Text)
  | addPartial (name source : Text)
  | setGlobals (globals : Context)
  /-- Reads files, as they are at that time. -/
  | load (fs : FileSystem) (l : Loading)

namespace Operation

/-- The engine after an operation, whether or not that ended well. -/
def run (e : Engine) : Operation → Engine
  | addTemplate name source => e.addTemplate name source
  | addPartial name source => e.addPartial name source
  | setGlobals globals => { e with globals := globals }
  | load fs l => (l.run fs e).1

/-- The glob from which an operation loads templates; `none` if it is about something else, or is
given a text that is no glob. -/
def templatesGlob? : Operation → Option Text
  | load _ (.templates glob) => (Glob.ofText glob).toOption.map fun _ => glob
  | _ => none

/-- The glob from which an operation loads partials. -/
def partialsGlob? : Operation → Option Text
  | load _ (.partials glob) => (Glob.ofText glob).toOption.map fun _ => glob
  | _ => none

end Operation

/-- The engine that some operations lead to, from the one without anything. -/
def afterAll (ops : List Operation) : Engine :=
  ops.foldl Operation.run ∅

theorem afterAll_concat (ops : List Operation) (op : Operation) :
    afterAll (ops ++ [op]) = op.run (afterAll ops) := by
  rw [afterAll, List.foldl_append]
  rfl

/-- **Operations lead to the reachable engines**, and to no others. -/
theorem reachable_iff {e : Engine} : e.Reachable ↔ ∃ ops, e = afterAll ops := by
  constructor
  · intro h
    have further {e : Engine} (op : Operation) (ih : ∃ ops, e = afterAll ops) :
        ∃ ops, op.run e = afterAll ops := by
      obtain ⟨ops, rfl⟩ := ih
      exact ⟨ops ++ [op], (afterAll_concat ops op).symm⟩
    induction h with
    | empty => exact ⟨[], rfl⟩
    | addTemplate _ name source ih => exact further (.addTemplate name source) ih
    | addPartial _ name source ih => exact further (.addPartial name source) ih
    | setGlobals _ globals ih => exact further (.setGlobals globals) ih
    | load _ fs l ih => exact further (.load fs l) ih
  · rintro ⟨ops, rfl⟩
    -- the last operation is the one that was made last, so the induction is from the end
    induction ops using List.reverseRecOn with
    | nil => exact .empty
    | append_singleton ops op ih =>
      rw [afterAll_concat]
      cases op with
      | addTemplate name source => exact ih.addTemplate name source
      | addPartial name source => exact ih.addPartial name source
      | setGlobals globals => exact ih.setGlobals globals
      | load fs l => exact ih.load fs l

/-! ### The globs that are kept -/

/-- What loading from a glob leaves behind, whether or not it fails. -/
theorem loadInto_fst (fs : FileSystem) (e : Engine) (glob : Text) (put : Registry → Engine) :
    (loadInto fs glob e put).1
      = ((Glob.ofText glob).toOption.map fun _ => put (loadedFrom fs glob)).getD e := by
  cases hglob : Glob.ofText glob with
  | ok g => exact (loadInto_of_isGlob fs ⟨g, hglob⟩ e put).1
  | error err =>
    rw [loadInto, globFiles, hglob]
    rfl

/-- **What an operation keeps of the globs**: the one that it is given, or else the one that was
kept. -/
theorem HoldsGlobs.globs_run {e : Engine} (he : e.HoldsGlobs) (op : Operation) :
    (op.run e).templatesGlob = op.templatesGlob?.or e.templatesGlob ∧
      (op.run e).partialsGlob = op.partialsGlob?.or e.partialsGlob := by
  cases op with
  | addTemplate name source => exact ⟨rfl, rfl⟩
  | addPartial name source => exact ⟨rfl, rfl⟩
  | setGlobals globals => exact ⟨rfl, rfl⟩
  | load fs l =>
    simp only [Operation.run]
    cases l with
    | templateFile path name =>
      -- files that are added by themselves leave the globs alone
      rw [Loading.run, addTemplateFile]
      cases readTemplate fs path name <;> exact ⟨rfl, rfl⟩
    | partialFile path name =>
      rw [Loading.run, addPartialFile]
      cases readTemplate fs path name <;> exact ⟨rfl, rfl⟩
    | templates glob =>
      -- a text that is no glob is not kept
      rw [Loading.run, loadTemplates_eq, loadInto_fst, Operation.templatesGlob?]
      cases Glob.ofText glob <;> exact ⟨rfl, rfl⟩
    | partials glob =>
      rw [Loading.run, loadPartials_eq, loadInto_fst, Operation.partialsGlob?]
      cases Glob.ofText glob <;> exact ⟨rfl, rfl⟩
    | reload =>
      rw [Loading.run, (he.reload fs).1]
      exact ⟨rfl, rfl⟩

/-- What each operation may replace is what the last one that did so has given. -/
theorem kept_afterAll {α : Type} {kept : Engine → Option α} {given : Operation → Option α}
    (hempty : kept ∅ = none)
    (hrun : ∀ {e : Engine}, e.HoldsGlobs → ∀ op, kept (op.run e) = (given op).or (kept e))
    (ops : List Operation) : kept (afterAll ops) = ops.reverse.findSome? given := by
  induction ops using List.reverseRecOn with
  | nil => exact hempty
  | append_singleton ops op ih =>
    have hglobs : (afterAll ops).HoldsGlobs := (reachable_iff.2 ⟨ops, rfl⟩).holdsGlobs
    rw [afterAll_concat, hrun hglobs, ih, List.reverse_append, List.reverse_singleton,
      List.singleton_append, List.findSome?_cons]
    cases given op <;> rfl

/-- **The glob of templates that is kept** is the last one that was given. -/
theorem templatesGlob_afterAll (ops : List Operation) :
    (afterAll ops).templatesGlob = ops.reverse.findSome? Operation.templatesGlob? :=
  kept_afterAll rfl (fun he op => (he.globs_run op).1) ops

theorem partialsGlob_afterAll (ops : List Operation) :
    (afterAll ops).partialsGlob = ops.reverse.findSome? Operation.partialsGlob? :=
  kept_afterAll rfl (fun he op => (he.globs_run op).2) ops

/-! ### Loading everything again -/

section Reload

variable (fs : FileSystem) {glob : Text} {e e' : Engine}

theorem loadInto_eq_ok_iff {put : Registry → Engine} :
    loadInto fs glob e put = (e', .ok ()) ↔ ∃ r, Loads fs glob r ∧ e' = put r := by
  refine ⟨loadInto_eq_ok fs, ?_⟩
  rintro ⟨r, ⟨files, hfiles, hinsert⟩, rfl⟩
  rw [loadInto, hfiles]
  simp only [hinsert]

/-- What a registry becomes when everything is loaded again: what its glob loads, if it has one. -/
def Renewed (fs : FileSystem) (glob? : Option Text) (r r' : Registry) : Prop :=
  match glob? with
  | some glob => Loads fs glob r'
  | none => r' = r

/-- A glob loads one registry. -/
theorem Loads.unique {r r' : Registry} (h : Loads fs glob r) (h' : Loads fs glob r') : r = r' := by
  obtain ⟨files, hfiles, hinsert⟩ := h
  obtain ⟨files', hfiles', hinsert'⟩ := h'
  obtain rfl := Except.ok.inj (hfiles.symm.trans hfiles')
  exact (Prod.mk.inj (hinsert.symm.trans hinsert')).1

/-- **Loading again ends well** if there is a glob, and then both registries are renewed. -/
theorem reload_eq_ok_iff_renewed :
    e.reload fs = (e', .ok ()) ↔
      (e.templatesGlob.isSome ∨ e.partialsGlob.isSome) ∧ ∃ templates partials,
        Renewed fs e.templatesGlob e.templates templates ∧
        Renewed fs e.partialsGlob e.partials partials ∧ e' = { e with templates, partials } := by
  obtain ⟨templatesGlob, partialsGlob, templates, partials, globals⟩ := e
  cases templatesGlob with
  | none =>
    rw [reload_of_none rfl]
    cases partialsGlob with
    | none => simp
    | some glob => simp [loadPartials_eq, loadInto_eq_ok_iff, Renewed]
  | some glob =>
    rw [reload_of_some rfl, loadTemplates_eq]
    by_cases hloads : ∃ r, Loads fs glob r
    · obtain ⟨r, hr⟩ := hloads
      rw [(loadInto_eq_ok_iff fs).2 ⟨r, hr, rfl⟩]
      have hunique (r' : Registry) : Loads fs glob r' ↔ r' = r :=
        ⟨fun h => h.unique fs hr, fun h => h ▸ hr⟩
      cases partialsGlob with
      | none => simp [Renewed, hunique, eq_comm]
      | some glob' => simp [loadPartials_eq, loadInto_eq_ok_iff, Renewed, hunique]
    · -- if the templates cannot be loaded, the partials are not looked at
      refine iff_of_false (fun h => hloads ?_) fun ⟨_, r, _, hr, _⟩ => hloads ⟨r, hr⟩
      split at h
      · next hok _ => exact (loadInto_eq_ok fs (Prod.ext rfl hok)).imp fun _ => And.left
      · exact (loadInto_eq_ok fs (Prod.ext rfl (Prod.mk.inj h).2)).imp fun _ => And.left

/-- Whether all templates of a registry **are in files that a glob finds**, each in one of its
name. -/
def IsFound (fs : FileSystem) (glob : Text) (r : Registry) : Prop :=
  ∀ name t, r.get? name = some t → ∃ file ∈ filesOf fs glob,
    FilePath.templateName file.relative = name ∧ Template.ofFile fs name file.path = .ok t

theorem Loads.isFound {r : Registry} (h : Loads fs glob r) : IsFound fs glob r := by
  intro name t ht
  obtain ⟨files, hfiles, hinsert⟩ := h
  -- the files are those that are found where the glob is one
  have hof : filesOf fs glob = files := by
    unfold globFiles at hfiles
    split at hfiles
    · next g hg => rw [filesOf, hg, ← Except.ok.inj hfiles]
    · cases hfiles
  rcases Registry.get?_insertFiles hinsert name with
    ⟨before, file, after, u, rfl, hname, -, hread, hu⟩ | ⟨-, hnone⟩
  · obtain rfl := Option.some.inj (hu.symm.trans ht)
    exact ⟨file, hof ▸ List.mem_append_right _ List.mem_cons_self, hname, hread⟩
  · rw [hnone] at ht
    cases ht

/-- Whether an engine is another one after **everything was loaded again** from the files as they
are. -/
structure IsReloaded (fs : FileSystem) (e e' : Engine) : Prop where
  /-- The templates are those of a new engine that loads from the glob. -/
  templates_afresh : ∀ glob, e.templatesGlob = some glob →
    (∅ : Engine).loadTemplates fs glob
      = ({ (∅ : Engine) with templatesGlob := some glob, templates := e'.templates }, .ok ())
  partials_afresh : ∀ glob, e.partialsGlob = some glob →
    (∅ : Engine).loadPartials fs glob
      = ({ (∅ : Engine) with partialsGlob := some glob, partials := e'.partials }, .ok ())
  /-- So nothing is left of files that are gone, nor of templates from elsewhere. -/
  templates_found : ∀ glob, e.templatesGlob = some glob → IsFound fs glob e'.templates
  partials_found : ∀ glob, e.partialsGlob = some glob → IsFound fs glob e'.partials
  /-- Without a glob, the templates stay. -/
  templates_kept : e.templatesGlob = none → e'.templates = e.templates
  partials_kept : e.partialsGlob = none → e'.partials = e.partials
  templatesGlob_eq : e'.templatesGlob = e.templatesGlob
  partialsGlob_eq : e'.partialsGlob = e.partialsGlob
  globals_eq : e'.globals = e.globals

/-- Where an engine tells the registry that is put into it, what it loads is what the glob
loads. -/
theorem loadInto_put_eq_ok_iff {put : Registry → Engine} (hput : Function.Injective put)
    {r : Registry} : loadInto fs glob e put = (put r, .ok ()) ↔ Loads fs glob r := by
  rw [loadInto_eq_ok_iff]
  constructor
  · rintro ⟨r', hr', heq⟩
    rw [hput heq]
    exact hr'
  · exact fun h => ⟨r, h, rfl⟩

/-- A registry is renewed if it is loaded where there is a glob, and kept where there is none. -/
theorem renewed_iff {glob? : Option Text} {r r' : Registry} :
    Renewed fs glob? r r'
      ↔ (∀ glob, glob? = some glob → Loads fs glob r') ∧ (glob? = none → r' = r) := by
  cases glob? <;> simp [Renewed]

/-- **Loading again ends well** if there is a glob, in the engine that is loaded again. -/
theorem reload_eq_ok_iff :
    e.reload fs = (e', .ok ()) ↔
      (e.templatesGlob.isSome ∨ e.partialsGlob.isSome) ∧ e.IsReloaded fs e' := by
  rw [reload_eq_ok_iff_renewed]
  refine and_congr_right fun _ => ?_
  simp only [renewed_iff]
  -- what a new engine loads is what the glob loads
  have htemplatesAfresh (glob : Text) (r : Registry) : (∅ : Engine).loadTemplates fs glob
      = ({ (∅ : Engine) with templatesGlob := some glob, templates := r }, .ok ())
      ↔ Loads fs glob r := by
    rw [loadTemplates_eq]
    exact loadInto_put_eq_ok_iff fs fun _ _ heq => congrArg templates heq
  have hpartialsAfresh (glob : Text) (r : Registry) : (∅ : Engine).loadPartials fs glob
      = ({ (∅ : Engine) with partialsGlob := some glob, partials := r }, .ok ())
      ↔ Loads fs glob r := by
    rw [loadPartials_eq]
    exact loadInto_put_eq_ok_iff fs fun _ _ heq => congrArg partials heq
  constructor
  · rintro ⟨templates, partials, ⟨htemplates, hkept⟩, ⟨hpartials, hkept'⟩, rfl⟩
    exact {
      templates_afresh := fun glob h => (htemplatesAfresh glob _).2 (htemplates glob h)
      partials_afresh := fun glob h => (hpartialsAfresh glob _).2 (hpartials glob h)
      templates_found := fun glob h => (htemplates glob h).isFound
      partials_found := fun glob h => (hpartials glob h).isFound
      templates_kept := hkept
      partials_kept := hkept'
      templatesGlob_eq := rfl
      partialsGlob_eq := rfl
      globals_eq := rfl }
  · intro h
    have htemplates (glob : Text) (hglob : e.templatesGlob = some glob) :=
      (htemplatesAfresh glob _).1 (h.templates_afresh glob hglob)
    have hpartials (glob : Text) (hglob : e.partialsGlob = some glob) :=
      (hpartialsAfresh glob _).1 (h.partials_afresh glob hglob)
    refine ⟨e'.templates, e'.partials, ⟨htemplates, h.templates_kept⟩,
      ⟨hpartials, h.partials_kept⟩, ?_⟩
    rw [← h.templatesGlob_eq, ← h.partialsGlob_eq, ← h.globals_eq]

variable {fs}

/-- An engine that was loaded again is so from itself. -/
theorem IsReloaded.again (h : e.IsReloaded fs e') : e'.IsReloaded fs e' where
  templates_afresh glob hglob := h.templates_afresh glob (h.templatesGlob_eq ▸ hglob)
  partials_afresh glob hglob := h.partials_afresh glob (h.partialsGlob_eq ▸ hglob)
  templates_found glob hglob := h.templates_found glob (h.templatesGlob_eq ▸ hglob)
  partials_found glob hglob := h.partials_found glob (h.partialsGlob_eq ▸ hglob)
  templates_kept _ := rfl
  partials_kept _ := rfl
  templatesGlob_eq := rfl
  partialsGlob_eq := rfl
  globals_eq := rfl

/-- **Loading again once more** changes nothing. -/
theorem reload_eq_of_reload_eq_ok (h : e.reload fs = (e', .ok ())) :
    e'.reload fs = (e', .ok ()) := by
  obtain ⟨hsome, hreloaded⟩ := (reload_eq_ok_iff fs).1 h
  rw [← hreloaded.templatesGlob_eq, ← hreloaded.partialsGlob_eq] at hsome
  exact (reload_eq_ok_iff fs).2 ⟨hsome, hreloaded.again⟩

end Reload

/-- **Loading again is loading afresh.** Whatever operations have led to an engine, it keeps the
globs that were given last. If there is none, loading again fails and changes nothing. It ends well
only where there is one, and only in the engine that is loaded again: with what a new engine would
load from each glob, and with everything else as it was. Once more, it then changes nothing. -/
theorem reload_afterAll (ops : List Operation) (fs : FileSystem) :
    let e := afterAll ops
    (e.templatesGlob = ops.reverse.findSome? Operation.templatesGlob? ∧
      e.partialsGlob = ops.reverse.findSome? Operation.partialsGlob?) ∧
    (e.templatesGlob = none → e.partialsGlob = none →
      e.reload fs = (e, .error .nothingToReload)) ∧
    (∀ e', e.reload fs = (e', .ok ()) ↔
      (e.templatesGlob.isSome ∨ e.partialsGlob.isSome) ∧ e.IsReloaded fs e') ∧
    ∀ e', e.reload fs = (e', .ok ()) → e'.reload fs = (e', .ok ()) := by
  intro e
  refine ⟨⟨templatesGlob_afterAll ops, partialsGlob_afterAll ops⟩, fun htemplates hpartials => ?_,
    fun e' => reload_eq_ok_iff fs, fun e' h => reload_eq_of_reload_eq_ok h⟩
  rw [reload_of_none htemplates, hpartials]

/-! ### A page that is gone -/

/-- A directory of pages with two files. -/
def oldPages : FileSystem :=
  ⟨.directory [("pages".toList, .directory [("about.html".toList, .file ⟨#[0x41]⟩),
    ("index.html".toList, .file ⟨#[0x42]⟩)])], []⟩

/-- The same directory when the second file cannot be read. -/
def halfPages : FileSystem :=
  ⟨.directory [("pages".toList, .directory [("about.html".toList, .file ⟨#[0x41]⟩),
    ("index.html".toList, .file ⟨#[0xff]⟩)])], []⟩

/-- The same directory when the first file is gone and the second one has another text. -/
def newPages : FileSystem :=
  ⟨.directory [("pages".toList, .directory [("index.html".toList, .file ⟨#[0x43]⟩)])], []⟩

/-- Pages are loaded, loading them from another glob fails in the middle, and a page and a partial
are added by hand. -/
def editing : List Operation :=
  [.load oldPages (.templates "pages/*".toList), .load halfPages (.templates "pages/*.html".toList),
    .addTemplate "extra".toList "+".toList, .addPartial "nav".toList "-".toList]

/-- The engine when everything is loaded again behind that. -/
def edited : Engine :=
  { (∅ : Engine) with
    templatesGlob := some "pages/*.html".toList
    templates := (∅ : Registry).insert
      ⟨"index".toList, ['C'], some "/pages/index.html".toList⟩
    partials := (∅ : Registry).insert (.ofSource "nav".toList ['-']) }

theorem reload_editing : (afterAll editing).reload newPages = (edited, .ok ()) := by
  cbv

theorem names_editing :
    (afterAll editing).templates.names = ["about".toList, "extra".toList] := by
  cbv

/-- The page from the file that is gone and the page that was added by hand are lost, and the
partial that was added by hand is kept. -/
theorem reload_editing_afresh :
    (afterAll editing).templates.names = ["about".toList, "extra".toList] ∧
      (afterAll editing).reload newPages = (edited, .ok ()) ∧
      (afterAll editing).IsReloaded newPages edited ∧ edited.reload newPages = (edited, .ok ()) :=
  have h := reload_afterAll editing newPages
  ⟨names_editing, reload_editing, ((h.2.2.1 edited).1 reload_editing).2,
    h.2.2.2 edited reload_editing⟩

end Stencil.Engine
