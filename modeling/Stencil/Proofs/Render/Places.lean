import Stencil.Proofs.Render.Meaning
import Stencil.Proofs.Render.Sense

/-!
# Where a text stands

The same text can stand at another place, and in another template. The renderer then writes the same
and finds the same faults; only the places of the faults are others. So whoever does not look at
places (`Observation.IsPlaceless`) sees no difference:

* `Token.alike_of_isPlaceless`, `Parser.Alike.read_of_isPlaceless` — the tags of the text show the
  same, and parsers that read them stay alike;
* `Observation.of_renderSection_eq` — the renderer shows the same of a section, wherever the section
  begins, and of whatever template it is.

Two such observations are the output and the faults (`Observation.output`, `Observation.faults`).
-/

namespace Stencil

/-- Whether an observation **does not tell places**: where a diagnostic points, and into which
template, makes no difference. -/
def Observation.IsPlaceless {α : Type} (o : Observation α) : Prop :=
  ∀ (t u : Template) (fault : Fault) (start stop start' stop' : Nat),
    o.of (.ofDiagnostic (t.diagnostic fault start stop))
      = o.of (.ofDiagnostic (u.diagnostic fault start' stop'))

theorem Observation.isPlaceless_output : output.IsPlaceless :=
  fun _ _ _ _ _ _ _ => rfl

/-- The faults that a render finds, in order. -/
def Observation.faults : Observation Fault where
  of r := r.diagnostics.map Diagnostic.fault
  of_empty := rfl
  of_append a b := by rw [Rendered.diagnostics_append, List.map_append]

theorem Observation.isPlaceless_faults : faults.IsPlaceless :=
  fun _ _ _ _ _ _ _ => rfl

/-- Whether two tokens are the same but for their places. -/
structure Token.SameText (k l : Token) : Prop where
  before_eq : k.before = l.before
  tag_eq : k.tag = l.tag
  lexeme_eq : k.lexeme = l.lexeme

/-- Where a text begins makes no difference but for the places of its tokens. -/
theorem forall₂_tokens (offset offset' : Nat) (t : Text) :
    List.Forall₂ Token.SameText (tokens offset t) (tokens offset' t) := by
  rw [tokens, tokens]
  induction tags t generalizing offset offset' with
  | nil => exact .nil
  | cons s stream ih => exact .cons ⟨rfl, rfl, rfl⟩ (ih _ _)

/-! ### Views that do not tell places -/

section Placeless

variable {α : Type} {o : Observation α} (ho : o.IsPlaceless) {partials : Registry}
  {included : Template → Scope → Rendered} {t u : Template}
include ho

/-- The end of a block shows the same wherever the block stands. -/
theorem View.report_of_isPlaceless (path : Text) (start stop start' stop' : Nat)
    (close : Option BlockKind) (kind : BlockKind) :
    (⟨partials, included, t, o⟩ : View α).report ⟨path, start, stop, close⟩ kind
      = (⟨partials, included, u, o⟩ : View α).report ⟨path, start', stop', close⟩ kind := by
  rw [report, report, BlockHead.report, BlockHead.report]
  cases kind.endFault? close with
  | none => rfl
  | some fault => exact ho ..

/-- **A tag shows the same** wherever it stands. -/
theorem Token.alike_of_isPlaceless {k l : Token} (htag : k.tag = l.tag)
    (hlexeme : k.lexeme = l.lexeme) :
    k.Alike ⟨partials, included, t, o⟩ ⟨partials, included, u, o⟩ l := by
  refine ⟨htag, hlexeme, ?_, ?_⟩
  · intro name _
    rw [View.sense_singleton _ (by simp), View.sense_singleton _ (by simp)]
    refine congrArg Sense.leaf (funext fun scope => ?_)
    rw [View.shown, View.shown, evalAll_singleton, evalAll_singleton, Fragment.eval, Fragment.eval]
    -- a partial that is missing is reported, at a place that nobody looks at
    cases partials.get? name with
    | none => exact ho ..
    | some z => rfl
  · intro kind path close _
    exact View.report_of_isPlaceless ho path _ _ _ _ (some close) kind

/-- Parsers stay alike over a text, wherever it stands for the one and for the other. -/
theorem Parser.Alike.read_of_isPlaceless {p q : Parser}
    (h : Alike ⟨partials, included, t, o⟩ ⟨partials, included, u, o⟩ p q)
    (offset offset' : Nat) (text : Text) :
    Alike ⟨partials, included, t, o⟩ ⟨partials, included, u, o⟩
      (p.read (tokens offset text) (lastText text))
      (q.read (tokens offset' text) (lastText text)) := by
  have hvw : (⟨partials, included, t, o⟩ : View α).Alike ⟨partials, included, u, o⟩ :=
    ⟨fun _ => rfl⟩
  refine h.read hvw ((forall₂_tokens offset offset' text).imp ?_) _
  intro k l hkl
  exact ⟨Token.alike_of_isPlaceless ho hkl.tag_eq hkl.lexeme_eq, hkl.before_eq⟩

theorem Parser.Alike.sense_finish_of_isPlaceless {p q : Parser}
    (h : Alike ⟨partials, included, t, o⟩ ⟨partials, included, u, o⟩ p q) :
    (⟨partials, included, t, o⟩ : View α).sense (finish p.fragments p.frames)
      = (⟨partials, included, u, o⟩ : View α).sense (finish q.fragments q.frames) :=
  h.sense_finish fun path _ _ _ _ kind => View.report_of_isPlaceless ho path _ _ _ _ none kind

/-- **A section shows the same** wherever it begins, and in whatever template. -/
theorem Observation.of_renderSection_eq (partials : Registry) (depth : Nat) (t u : Template)
    (text : Text) (offset offset' : Nat) (scope : Scope) :
    o.of (renderSection partials depth t ⟨text, offset, scope⟩)
      = o.of (renderSection partials depth u ⟨text, offset', scope⟩) := by
  let v : View α := ⟨partials, includedAt partials depth, t, o⟩
  let w : View α := ⟨partials, includedAt partials depth, u, o⟩
  have hread := ((Parser.Alike.start v w).read_of_isPlaceless ho offset offset' text)
  have hsense : v.sense (treeOf (tokens offset text) (lastText text))
      = w.sense (treeOf (tokens offset' text) (lastText text)) :=
    hread.sense_finish_of_isPlaceless ho
  rw [renderSection_eq_evalAll, renderSection_eq_evalAll]
  exact congrFun (congrArg Sense.whole hsense) scope

end Placeless

/-! ### Output alone -/

section Output

variable (partials : Registry) (included : Template → Scope → Rendered) (t u : Template)

/-- Looking at what a template writes. -/
def View.ofOutput : View Char :=
  ⟨partials, included, t, .output⟩

/-- The end of a block has nothing to write. -/
theorem View.report_ofOutput (head : BlockHead) (kind : BlockKind) :
    (ofOutput partials included t).report head kind = [] := by
  rw [report, BlockHead.report]
  split <;> rfl

theorem View.alike_ofOutput : (ofOutput partials included t).Alike (ofOutput partials included u) :=
  ⟨fun _ => rfl⟩

/-- What a tag writes does not depend on where it stands, nor in which template. -/
theorem Token.alike_ofOutput {k l : Token} (htag : k.tag = l.tag) (hlexeme : k.lexeme = l.lexeme) :
    k.Alike (.ofOutput partials included t) (.ofOutput partials included u) l :=
  alike_of_isPlaceless Observation.isPlaceless_output htag hlexeme

end Output

end Stencil
