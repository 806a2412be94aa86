import Stencil.Proofs.Engine.Operations

/-!
# What failures leave behind

An operation that reads files may fail, and then the engine is not always what it was before. A file
that cannot be read is met when the glob has been kept and the registry emptied and partly filled
again, and nothing of this is taken back. All other failures come before anything is changed.

* `Engine.eq_iff_of_run_eq_error` — the exact condition under which a failure leaves the engine as
  it was, and the condition on the files that is enough for it;
* `Engine.lostIndex_ne` — an engine that loses its template by a failure.
-/

namespace Stencil

namespace Engine

/-! ### When nothing is changed -/

namespace Loading

/-- The globs from which an operation loads. -/
def globs (e : Engine) : Loading → List Text
  | .templateFile .. => []
  | .partialFile .. => []
  | .templates glob => [glob]
  | .partials glob => [glob]
  | .reload => e.templatesGlob.toList ++ e.partialsGlob.toList

/-- Whether an operation **has nothing to change**: as far as files can be read, the engine holds
what is loaded already. -/
def Repeats (fs : FileSystem) (e : Engine) : Loading → Prop
  | .templateFile .. => True
  | .partialFile .. => True
  | .templates glob =>
    IsGlob glob → e.templatesGlob = some glob ∧ e.templates = loadedFrom fs glob
  | .partials glob => IsGlob glob → e.partialsGlob = some glob ∧ e.partials = loadedFrom fs glob
  | .reload =>
    (∀ glob ∈ e.templatesGlob, e.templates = loadedFrom fs glob) ∧
      ((∀ glob ∈ e.templatesGlob, Readable fs glob) →
        ∀ glob ∈ e.partialsGlob, e.partials = loadedFrom fs glob)

end Loading

section Failures

variable {fs : FileSystem} {e e' : Engine} {err : EngineError}

/-- A file is read before anything is changed. -/
theorem eq_of_orKept_eq_error {x : Except EngineError Engine}
    (h : e.orKept x = (e', .error err)) : e' = e := by
  cases x with
  | ok e'' => cases (Prod.mk.inj h).2
  | error err' => exact (Prod.mk.inj h).1.symm

/-- What is left of loading from a glob, if it fails: a text that is no glob changes nothing. -/
theorem eq_iff_of_loadInto_eq_error {glob : Text} {put : Registry → Engine}
    (h : loadInto fs glob e put = (e', .error err)) :
    (e' = e ↔ (IsGlob glob → put (loadedFrom fs glob) = e)) ∧ (Readable fs glob → e' = e) := by
  by_cases hglob : IsGlob glob
  · obtain ⟨hfst, hsnd⟩ := loadInto_of_isGlob fs hglob e put
    rw [h] at hfst hsnd
    have hunreadable : ¬ Readable fs glob := fun hr => by cases hsnd.2 hr
    subst hfst
    exact ⟨⟨fun heq _ => heq, fun heq => heq hglob⟩, fun hr => absurd hr hunreadable⟩
  · obtain ⟨err', herr⟩ := loadInto_of_not_isGlob fs hglob e put
    obtain ⟨rfl, -⟩ := Prod.mk.inj (herr.symm.trans h)
    exact ⟨⟨fun _ hg => absurd hg hglob, fun _ => rfl⟩, fun _ => rfl⟩

/-- The engine with templates from a glob is the same as before if it held them. -/
theorem withTemplates_eq_iff (glob : Text) (templates : Registry) :
    { e with templatesGlob := some glob, templates } = e ↔
      e.templatesGlob = some glob ∧ e.templates = templates := by
  constructor
  · intro h
    exact ⟨(congrArg templatesGlob h).symm, (congrArg Engine.templates h).symm⟩
  · rintro ⟨hglob, rfl⟩
    rw [← hglob]

theorem withPartials_eq_iff (glob : Text) (partials : Registry) :
    { e with partialsGlob := some glob, partials } = e ↔
      e.partialsGlob = some glob ∧ e.partials = partials := by
  constructor
  · intro h
    exact ⟨(congrArg partialsGlob h).symm, (congrArg Engine.partials h).symm⟩
  · rintro ⟨hglob, rfl⟩
    rw [← hglob]

end Failures

/-- A registry is the one that takes its place, if there is a glob to load it from. -/
theorem getD_map_eq_iff {f : Text → Registry} {glob? : Option Text} {r : Registry} :
    (glob?.map f).getD r = r ↔ ∀ glob ∈ glob?, r = f glob := by
  cases glob? with
  | none => exact ⟨nofun, fun _ => rfl⟩
  | some glob =>
    constructor
    · intro h other hother
      obtain rfl := Option.some.inj hother
      exact h.symm
    · intro h
      exact (h glob rfl).symm

theorem withRegistries_eq_iff {e : Engine} (templates partials : Registry) :
    { e with templates, partials } = e ↔ templates = e.templates ∧ partials = e.partials := by
  constructor
  · intro h
    exact ⟨congrArg Engine.templates h, congrArg Engine.partials h⟩
  · rintro ⟨rfl, rfl⟩
    rfl

/-- What is left of loading again, if it fails. -/
theorem HoldsGlobs.eq_iff_of_reload_eq_error {fs : FileSystem} {e e' : Engine} {err : EngineError}
    (he : e.HoldsGlobs) (h : e.reload fs = (e', .error err)) :
    (e' = e ↔ Loading.reload.Repeats fs e) ∧
      ((∀ glob ∈ Loading.reload.globs e, Readable fs glob) → e' = e) := by
  obtain ⟨hfst, hsnd⟩ := he.reload fs
  rw [h] at hfst hsnd
  -- the partials stay what they were if the templates cannot be read
  have hiff : e' = e ↔ Loading.reload.Repeats fs e := by
    rw [show e' = _ from hfst, withRegistries_eq_iff, getD_map_eq_iff, Loading.Repeats]
    refine and_congr_right fun _ => ?_
    split
    · next hreadable => rw [getD_map_eq_iff]; exact ⟨fun heq _ => heq, fun heq => heq hreadable⟩
    · next hunreadable => exact ⟨fun _ hr => absurd hr hunreadable, fun _ => rfl⟩
  refine ⟨hiff, fun hreadable => hiff.2 ?_⟩
  -- with all files to be read, there can only have been nothing to load
  have hnothing : ¬ (e.templatesGlob.isSome ∨ e.partialsGlob.isSome) := by
    intro hsome
    have hok := hsnd.2 ⟨hsome, fun glob hglob => hreadable glob ?_, fun glob hglob =>
      hreadable glob ?_⟩
    · cases hok
    · exact List.mem_append_left _ (Option.mem_toList.2 hglob)
    · exact List.mem_append_right _ (Option.mem_toList.2 hglob)
  rw [not_or, Option.not_isSome_iff_eq_none, Option.not_isSome_iff_eq_none] at hnothing
  obtain ⟨htemplates, hpartials⟩ := hnothing
  rw [Loading.Repeats, htemplates, hpartials]
  exact ⟨nofun, fun _ => nofun⟩

/-- No operation that reads files touches the global names. -/
theorem HoldsGlobs.globals_run {e : Engine} (h : e.HoldsGlobs) (fs : FileSystem) (l : Loading) :
    (l.run fs e).1.globals = e.globals := by
  -- loading from a glob leaves an engine that `put` makes, or the one that was there
  have hinto {glob : Text} {put : Registry → Engine} (hput : ∀ r, (put r).globals = e.globals) :
      (loadInto fs glob e put).1.globals = e.globals := by
    by_cases hglob : IsGlob glob
    · rw [(loadInto_of_isGlob fs hglob e put).1, hput]
    · obtain ⟨err, herr⟩ := loadInto_of_not_isGlob fs hglob e put
      rw [herr]
  cases l with
  | templateFile path name =>
    change (e.orKept (e.addTemplateFile fs path name)).1.globals = e.globals
    rw [addTemplateFile]
    cases readTemplate fs path name with
    | ok t => rfl
    | error err => rfl
  | partialFile path name =>
    change (e.orKept (e.addPartialFile fs path name)).1.globals = e.globals
    rw [addPartialFile]
    cases readTemplate fs path name with
    | ok t => rfl
    | error err => rfl
  | templates glob =>
    change (e.loadTemplates fs glob).1.globals = e.globals
    rw [loadTemplates_eq]
    exact hinto fun _ => rfl
  | partials glob =>
    change (e.loadPartials fs glob).1.globals = e.globals
    rw [loadPartials_eq]
    exact hinto fun _ => rfl
  -- reloading repeats the loads of the globs that are kept
  | reload =>
    change (e.reload fs).1.globals = e.globals
    rw [(h.reload fs).1]

/-- **When a failure leaves an engine as it was**: if and only if the operation has nothing to
change, as far as it comes; and so whenever all files can be read that its globs find. The global
names are never touched. -/
theorem eq_iff_of_run_eq_error {fs : FileSystem} {e e' : Engine} {l : Loading} {err : EngineError}
    (he : e.Reachable) (h : l.run fs e = (e', .error err)) :
    e'.globals = e.globals ∧ (e' = e ↔ l.Repeats fs e) ∧
      ((∀ glob ∈ l.globs e, Readable fs glob) → e' = e) := by
  have hglobals := he.holdsGlobs.globals_run fs l
  rw [h] at hglobals
  refine ⟨hglobals, ?_⟩
  cases l with
  | templateFile path name =>
    have heq := eq_of_orKept_eq_error h
    exact ⟨iff_of_true heq trivial, fun _ => heq⟩
  | partialFile path name =>
    have heq := eq_of_orKept_eq_error h
    exact ⟨iff_of_true heq trivial, fun _ => heq⟩
  -- a glob takes the place of the kept one, and the registry is emptied, before a file is read
  | templates glob =>
    change e.loadTemplates fs glob = _ at h
    rw [loadTemplates_eq] at h
    obtain ⟨hiff, hreadable⟩ := eq_iff_of_loadInto_eq_error h
    rw [withTemplates_eq_iff] at hiff
    exact ⟨hiff, fun hall => hreadable (hall glob (List.mem_singleton_self _))⟩
  | partials glob =>
    change e.loadPartials fs glob = _ at h
    rw [loadPartials_eq] at h
    obtain ⟨hiff, hreadable⟩ := eq_iff_of_loadInto_eq_error h
    rw [withPartials_eq_iff] at hiff
    exact ⟨hiff, fun hall => hreadable (hall glob (List.mem_singleton_self _))⟩
  | reload => exact he.holdsGlobs.eq_iff_of_reload_eq_error h

/-! ### A template that is lost -/

/-- A directory of pages with one file, which is no text. -/
def brokenPages : FileSystem :=
  ⟨.directory [("pages".toList, .directory [("index.html".toList, .file ⟨#[0xff]⟩)])], []⟩

/-- An engine with one template. -/
def withIndex : Engine :=
  (∅ : Engine).addTemplate "index".toList "Hello!".toList

/-- What is left of it when loading from the directory has failed: the glob, and no template. -/
def lostIndex : Engine :=
  { (∅ : Engine) with templatesGlob := some "pages/*".toList }

theorem reachable_withIndex : withIndex.Reachable :=
  .addTemplate .empty ..

theorem run_brokenPages :
    (Loading.templates "pages/*".toList).run brokenPages withIndex
      = (lostIndex, .error (.cannotRead "/pages/index.html".toList .invalidText)) := by
  cbv

theorem names_lostIndex :
    withIndex.templates.names = ["index".toList] ∧ lostIndex.templates.names = [] := by
  decide

/-- A failure takes the template away. -/
theorem lostIndex_ne :
    withIndex.Reachable ∧
      (Loading.templates "pages/*".toList).run brokenPages withIndex
        = (lostIndex, .error (.cannotRead "/pages/index.html".toList .invalidText)) ∧
      withIndex.templates.names = ["index".toList] ∧ lostIndex.templates.names = [] ∧
      lostIndex ≠ withIndex := by
  obtain ⟨hbefore, hafter⟩ := names_lostIndex
  refine ⟨reachable_withIndex, run_brokenPages, hbefore, hafter, fun heq => ?_⟩
  rw [heq, hbefore] at hafter
  cases hafter

/-- So the engine did not hold what there is to load. -/
theorem not_repeats_withIndex :
    withIndex.Reachable ∧
      (Loading.templates "pages/*".toList).run brokenPages withIndex
        = (lostIndex, .error (.cannotRead "/pages/index.html".toList .invalidText)) ∧
      lostIndex.globals = withIndex.globals ∧
      ¬ (Loading.templates "pages/*".toList).Repeats brokenPages withIndex := by
  obtain ⟨hglobals, hiff, -⟩ := eq_iff_of_run_eq_error reachable_withIndex run_brokenPages
  refine ⟨reachable_withIndex, run_brokenPages, hglobals, fun hrepeats => ?_⟩
  have hnames := congrArg (fun e : Engine => e.templates.names) (hiff.2 hrepeats)
  simp only [names_lostIndex] at hnames
  cases hnames

end Engine

end Stencil
