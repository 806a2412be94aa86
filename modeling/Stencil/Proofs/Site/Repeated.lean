import Stencil.Proofs.File.Effects
import Stencil.Proofs.Site.Loading

/-!
# Deeds that are done again

In a tree without links, a deed that succeeds leaves something behind at its paths: a directory that
was made, a file that was written. As long as everything is kept, it stays there, and where it is
there already, the deed succeeds once more. So what was done up to the end can be done again, as
often as one likes.

* `Deed.Done` — that what a deed leaves behind is there;
* `Deed.grows_of_ok`, `SiteAction.grows_of_carryOutAll` — a deed that succeeds, and any number of
  them, keep everything, and what they leave behind is there;
* `Deed.exists_perform_of_done`, `SiteAction.exists_carryOutAll` — and where it is, they succeed.
-/

namespace Stencil

namespace SiteAction

theorem makeDirectories_eq_ok {path : FilePath} {w w' : World}
    (h : (makeDirectories path).perform w = (.ok (), w')) :
    w.files.makeDirectories path = (w'.files, none) := by
  rw [perform_makeDirectories] at h
  split at h
  · next files hmade =>
    obtain ⟨-, rfl⟩ := Prod.mk.inj h
    exact hmade
  · cases (Prod.mk.inj h).1

theorem change_eq_ok {path : FilePath} {f : FileSystem → Except IoFault FileSystem} {w w' : World}
    (h : (change path f).perform w = (.ok (), w')) : f w.files = .ok w'.files := by
  rw [perform_change] at h
  split at h
  · next files hfiles =>
    obtain ⟨-, rfl⟩ := Prod.mk.inj h
    exact hfiles
  · cases (Prod.mk.inj h).1

theorem log_eq_ok {level : LogLevel} {message : String} {w w' : World}
    (h : (log level message).perform w = (.ok (), w')) : w'.files = w.files := by
  obtain ⟨-, rfl⟩ := Prod.mk.inj h
  rfl

theorem carryOutAll_cons_eq_ok {d : Deed} {ds : List Deed} {w w' : World}
    (h : (carryOutAll (d :: ds)).perform w = (.ok (), w')) :
    ∃ v, d.carryOut.perform w = (.ok (), v) ∧ (carryOutAll ds).perform v = (.ok (), w') := by
  obtain ⟨_, v, hd, hds⟩ := perform_bind_eq_ok h
  exact ⟨v, hd, hds⟩

theorem carryOutAll_append_eq_ok {ds es : List Deed} {w w' : World}
    (h : (carryOutAll (ds ++ es)).perform w = (.ok (), w')) :
    ∃ v, (carryOutAll ds).perform w = (.ok (), v) ∧ (carryOutAll es).perform v = (.ok (), w') := by
  rw [carryOutAll_append] at h
  obtain ⟨_, v, hds, hes⟩ := perform_bind_eq_ok h
  exact ⟨v, hds, hes⟩

end SiteAction

/-! ### One deed -/

namespace Deed

variable {d : Deed}

/-- Whether what a deed **leaves behind** is there: the paths at which it makes or overwrites
something lead to such things, and so does the path that it copies from. -/
def Done (fs : FileSystem) : Deed → Prop
  | makeDirectories path => path = [] ∨ fs.isDirectory path = true
  | write path _ => fs.isFile path = true
  | copy source target => fs.isFile source = true ∧ fs.isFile target = true
  | log .. => True
  | fail _ => False

/-- What is done stays done. -/
theorem Done.of_grows {fs fs' : FileSystem} (hfs : fs.Unlinked) (hgrows : fs.Grows fs')
    (h : d.Done fs) : d.Done fs' := by
  cases d with
  | makeDirectories path => exact h.imp_right (hgrows.isDirectory hfs)
  | write path content => exact hgrows.isFile hfs h
  | copy source target => exact ⟨hgrows.isFile hfs h.1, hgrows.isFile hfs h.2⟩
  | log level message => trivial
  | fail error => exact h

/-- **A deed that succeeds** keeps everything, and is done then. -/
theorem grows_of_ok {w w' : World} (hw : w.files.Unlinked)
    (h : d.carryOut.perform w = (.ok (), w')) : w.files.Grows w'.files ∧ d.Done w'.files := by
  cases d with
  | makeDirectories path =>
    obtain ⟨hgrows, hdirectory, -⟩ :=
      FileSystem.makeDirectories_spec hw (SiteAction.makeDirectories_eq_ok h)
    exact ⟨hgrows, hdirectory⟩
  | write path content =>
    obtain ⟨hgrows, -, hfile⟩ := FileSystem.write_spec hw (SiteAction.change_eq_ok h)
    exact ⟨hgrows, hfile⟩
  | copy source target => exact FileSystem.grows_of_copy hw (SiteAction.change_eq_ok h)
  | log level message =>
    rw [SiteAction.log_eq_ok h]
    exact ⟨hw.grows_refl, trivial⟩
  | fail error => cases (Prod.mk.inj h).1

/-- **A deed that is done** succeeds. -/
theorem exists_perform_of_done {w : World} (hw : w.files.Unlinked) (h : d.Done w.files) :
    ∃ w', d.carryOut.perform w = (.ok (), w') := by
  cases d with
  | makeDirectories path =>
    refine ⟨w, ?_⟩
    rw [carryOut, SiteAction.perform_makeDirectories,
      FileSystem.makeDirectories_of_isDirectory hw h]
  | write path content =>
    obtain ⟨fs, hfs⟩ := FileSystem.exists_write hw h content
    exact ⟨{ w with files := fs }, by rw [carryOut, SiteAction.perform_change, hfs]⟩
  | copy source target =>
    obtain ⟨fs, hfs⟩ := FileSystem.exists_copy hw h.1 h.2
    exact ⟨{ w with files := fs }, by rw [carryOut, SiteAction.perform_change, hfs]⟩
  | log level message => exact ⟨_, rfl⟩
  | fail error => exact h.elim

end Deed

/-! ### Any number of deeds -/

namespace SiteAction

variable {ds : List Deed}

/-- **Deeds that succeed** keep everything, and are done then, also the first of them. -/
theorem grows_of_carryOutAll {w w' : World} (hw : w.files.Unlinked)
    (h : (carryOutAll ds).perform w = (.ok (), w')) :
    w.files.Grows w'.files ∧ ∀ d ∈ ds, d.Done w'.files := by
  induction ds generalizing w with
  | nil =>
    obtain ⟨-, rfl⟩ := Prod.mk.inj h
    exact ⟨hw.grows_refl, nofun⟩
  | cons d ds ih =>
    obtain ⟨v, hd, hds⟩ := carryOutAll_cons_eq_ok h
    obtain ⟨hgrows, hdone⟩ := Deed.grows_of_ok hw hd
    obtain ⟨hgrows', hrest⟩ := ih hgrows.unlinked hds
    refine ⟨hgrows.trans hgrows', List.forall_mem_cons.2 ⟨?_, hrest⟩⟩
    exact hdone.of_grows hgrows.unlinked hgrows'

/-- **Deeds that are done** succeed. -/
theorem exists_carryOutAll {w : World} (hw : w.files.Unlinked) (h : ∀ d ∈ ds, d.Done w.files) :
    ∃ w', (carryOutAll ds).perform w = (.ok (), w') := by
  induction ds generalizing w with
  | nil => exact ⟨w, rfl⟩
  | cons d ds ih =>
    obtain ⟨hd, hds⟩ := List.forall_mem_cons.1 h
    obtain ⟨v, hv⟩ := Deed.exists_perform_of_done hw hd
    -- what has been done stays done while the files grow
    obtain ⟨hgrows, -⟩ := Deed.grows_of_ok hw hv
    obtain ⟨w', hw'⟩ := ih hgrows.unlinked fun e he => (hds e he).of_grows hw hgrows
    refine ⟨w', ?_⟩
    rw [carryOutAll, perform_bind, hv]
    exact hw'

end SiteAction

end Stencil
