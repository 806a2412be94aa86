import Stencil.Engine.Output
import Stencil.Proofs.Render.Askable

/-!
# Global names as names of the page

The names of a page hide the global ones, and that is all there is to the two kinds: a render with
global names is the render of a page that has both, its own names put over the global ones.

* `Scope.get_root_merged` — at the root, both give every name the same value, also where the page
  binds a name to nothing, and so they render everything alike;
* `Engine.render_eq_merged` — so an engine renders as it would without global names.
-/

namespace Stencil

/-! ### Scopes -/

/-- **At the root**, a page over global names gives each name the value that the merged page
gives. -/
theorem Scope.get_root_merged (page globals : Context) (name : Text) :
    (Scope.root page globals).get name = (Scope.root (globals.extend page) ∅).get name := by
  have hempty : (∅ : Context).get? name = none := rfl
  rw [get, get, NameMap.get?_extend, hempty, Option.or_none]

theorem NameMap.extend_empty_left {α : Type} (m : NameMap α) : (∅ : NameMap α).extend m = m := by
  refine ext_get? fun name => ?_
  have hempty : (∅ : NameMap α).get? name = none := rfl
  rw [get?_extend, hempty, Option.or_none]

/-- Both reach the same lists. -/
theorem Scope.itemCount_root_merged (page globals : Context) :
    (Scope.root page globals).itemCount = (Scope.root (globals.extend page) ∅).itemCount := by
  rw [itemCount, itemCount, NameMap.extend_empty_left]

/-! ### Renders -/

/-- A template is rendered alike with global names and with a merged page. -/
theorem renderTemplate_root_merged (partials : Registry) (t : Template) (page globals : Context) :
    renderTemplate partials t (.root page globals)
      = renderTemplate partials t (.root (globals.extend page) ∅) :=
  renderTemplate_eq_of_isAskable partials t (Scope.itemCount_root_merged page globals)
    fun name _ => Scope.get_root_merged page globals name

namespace Engine

/-- The engine without its global names. -/
def withoutGlobals (e : Engine) : Engine :=
  { e with globals := ∅ }

/-- **Global names are names of every page**: an engine renders each template and each source in the
names of a page as it would without global names, if the names of the page are put over these. The
page then has what it binds itself, also if that is nothing, and else what is bound globally. -/
theorem render_eq_merged (e : Engine) (page : Context) :
    (∀ name, (e.globals.extend page).get? name = (page.get? name).or (e.globals.get? name)) ∧
    (∀ name, e.render name page = e.withoutGlobals.render name (e.globals.extend page)) ∧
    (∀ source,
      e.renderSource source page = e.withoutGlobals.renderSource source (e.globals.extend page)) ∧
    ∀ template,
      e.renderIn template page = e.withoutGlobals.renderIn template (e.globals.extend page) := by
  have hrender (template : Template) :
      e.renderIn template page = e.withoutGlobals.renderIn template (e.globals.extend page) :=
    renderTemplate_root_merged e.partials template page e.globals
  refine ⟨fun name => NameMap.get?_extend .., fun name => ?_, fun source => hrender _, hrender⟩
  rw [render, render, show e.withoutGlobals.templates = e.templates from rfl]
  cases e.templates.get? name with
  | none => rfl
  | some template => exact congrArg Except.ok (hrender template)

end Engine

end Stencil
