import Stencil.Proofs.Render.Diagnostics
import Stencil.Proofs.Render.Places
import Stencil.Proofs.Tag.Closing

/-!
# Blocks that nothing closes

A block that nothing closes runs to the end of the text. So it writes what it would write with its
closing tag there, and all that is different is that there is something to say about it:
`renderTemplate_closed` compares a template with the one in which the blocks that it leaves open are
closed at its end (`Template.closed`).

Both templates have the same tags up to the end of the shorter one (`tokens_append_closingTags`), so
their parsers are alike up to there. Then the one ends its open blocks and the other reads a closing
tag for each of them, the innermost one first, and both come to fragments that show the same
(`View.sense_finish`).
-/

namespace Stencil

/-! ### Places in a longer source -/

/-- Bytes of a text are bytes of what it begins. -/
theorem Text.takeBytes_append {n : Nat} {t : Text} (h : n ≤ t.size) (more : Text) :
    (t ++ more).takeBytes n = t.takeBytes n := by
  induction t generalizing n with
  | nil =>
    obtain rfl := Nat.le_zero.1 h
    exact takeBytes_size_append [] more
  | cons c t ih =>
    rw [List.cons_append, takeBytes, takeBytes]
    split
    · rw [size_cons] at h
      rw [ih (by omega)]
    · rfl

theorem Span.locate_append {source : Text} {stop : Nat} (h : stop ≤ source.size) (more : Text)
    (start : Nat) : locate (source ++ more) start stop = locate source start stop := by
  have hsize := Text.size_takeBytes_le stop source
  have hstart := Text.takeBytes_append (t := source)
    (Nat.le_trans (Nat.min_le_right start (source.takeBytes stop).size) (by omega)) more
  simp only [locate, Text.takeBytes_append h, hstart]

theorem stop_le_size_of_mem_tokens {t : Text} {k : Token} (h : k ∈ tokens 0 t) :
    k.stop ≤ t.size := by
  obtain ⟨before, after, ht, hstart, -⟩ := exists_parts_of_mem_tokens h
  rw [ht, Token.stop, hstart]
  simp only [Text.size_append]
  omega

/-! ### Blocks at the end -/

/-- The kinds of the blocks that are open, from tag to tag. -/
theorem Parser.map_kind_foldl_step (p : Parser) (ks : List Token) :
    (ks.foldl step p).frames.map Frame.kind
      = (ks.map Token.tag).foldl Tag.kindsAfter (p.frames.map Frame.kind) := by
  induction ks generalizing p with
  | nil => rfl
  | cons k ks ih =>
    rw [List.foldl_cons, ih, map_kind_step]
    rfl

section Ends

variable {α : Type} {v w : View α}

/-- **Ending the open blocks** shows the same as reading the tags that close them, if nothing is
shown of it that a block is left open. -/
theorem View.sense_finish
    (hopen : ∀ path start stop kind, v.report ⟨path, start, stop, none⟩ kind = [])
    {frames frames' : List Frame} (hframes : List.Forall₂ (Frame.Alike v w) frames frames')
    {xs ys : List Fragment} {before : Text} (h : v.sense xs = w.sense (ys ++ [.text before]))
    (offset : Nat) :
    v.sense (Parser.finish xs frames)
      = w.sense (Parser.parse ⟨ys, frames'⟩ (closingTokens offset before (frames.map Frame.kind))
          (lastBehind before (frames.map Frame.kind))) := by
  induction hframes generalizing xs ys before offset with
  | nil => exact h
  | @cons f g outer outer' hfg _ ih =>
    rw [List.map_cons, closingTokens, Parser.parse_cons, Parser.step_closing_cons rfl]
    have hblock : v.sense (f.before ++ [f.block none xs])
        = w.sense (g.before ++ [g.block (some f.kind) (ys ++ [.text before])] ++ [.text []]) := by
      rw [v.sense_append, w.sense_append, w.sense_append, v.sense_block, w.sense_block,
        w.sense_text_nil, Sense.append_empty, hfg.before_eq, hopen, ← hfg.kind_eq,
        w.report_of_close, hfg.path_eq, h]
    -- behind the first closing tag there is no text, neither before the next one nor at the end
    have hrest := ih hblock (offset + f.kind.closingTag.size)
    cases outer <;> exact hrest

/-- So a text shows the same as with the tags behind it that close what it leaves open. -/
theorem View.Alike.sense_treeOf_closingTokens (hvw : v.Alike w)
    (hopen : ∀ path start stop kind, v.report ⟨path, start, stop, none⟩ kind = [])
    {ks : List Token} (hks : ∀ k ∈ ks, k.Alike v w k) (offset : Nat) (last : Text) :
    let kinds := (ks.map Token.tag).foldl Tag.kindsAfter []
    v.sense (treeOf ks last)
      = w.sense (treeOf (ks ++ closingTokens offset last kinds) (lastBehind last kinds)) := by
  intro kinds
  have hread := (Parser.Alike.start v w).foldl_step hvw
    (List.forall₂_same.2 fun k hk => ⟨hks k hk, rfl⟩)
  have hlast := (hread.push (hvw.sense_text last)).fragments_eq
  have hkinds : (ks.foldl Parser.step .start).frames.map Frame.kind = kinds :=
    Parser.map_kind_foldl_step .start ks
  -- closing the open blocks one by one shows what leaving them open does
  have hfinish := View.sense_finish hopen hread.frames hlast offset
  rw [hkinds] at hfinish
  rw [treeOf, treeOf, Parser.parse_append]
  exact hfinish

end Ends

/-! ### Templates -/

/-- A template in which tags at the end **close the blocks that it leaves open**. -/
def Template.closed (t : Template) : Template :=
  { t with source := t.source ++ (unclosed t.source).flatMap BlockKind.closingTag }

/-- What a diagnostic says, apart from the source that comes with it. -/
def Diagnostic.gist (d : Diagnostic) : Fault × Text × Span :=
  (d.fault, d.template, d.span)

/-- Whether a fault is that of a block which nothing closes. -/
def Fault.isUnclosed : Fault → Bool
  | .unclosedBlock _ => true
  | _ => false

/-- Whether a diagnostic is about a block of the template `t` which nothing closes. -/
def Diagnostic.isUnclosedOf (t : Template) (d : Diagnostic) : Bool :=
  d.template = t.name ∧ d.fault.isUnclosed

section Templates

variable {α : Type} (partials : Registry) (depth : Nat) (t : Template)

/-- Looking at a template whose partials may be nested `depth` deep. -/
def Template.view (o : Observation α) : View α :=
  ⟨partials, includedAt partials depth, t, o⟩

theorem Template.shown_view (o : Observation α) (scope : Scope) :
    (t.view partials depth o).shown t.tree scope
      = o.of (includedAt partials (depth + 1) t scope) := by
  rw [View.shown, includedAt_succ]
  rfl

/-- Closing a template keeps what is seen of it, if nothing is seen of it that blocks are open. -/
theorem Template.of_includedAt_closed {o o' : Observation α}
    (hend : Even (bracketsAtEnd t.source))
    (hvw : (t.view partials depth o).Alike (t.closed.view partials depth o'))
    (hopen : ∀ path start stop kind,
      (t.view partials depth o).report ⟨path, start, stop, none⟩ kind = [])
    (hks : ∀ k ∈ tokens 0 t.source,
      k.Alike (t.view partials depth o) (t.closed.view partials depth o') k) (scope : Scope) :
    o.of (includedAt partials (depth + 1) t scope)
      = o'.of (includedAt partials (depth + 1) t.closed scope) := by
  -- the template that is closed has one closing tag more for each open block, at its end
  have htree : t.closed.tree
      = treeOf (tokens 0 t.source ++ closingTokens (0 + t.source.size) (lastText t.source)
          (unclosed t.source)) (lastBehind (lastText t.source) (unclosed t.source)) := by
    rw [tree, closed, tokens_append_closingTags hend, lastText_append_closingTags hend]
  have hsense := hvw.sense_treeOf_closingTokens hopen hks (0 + t.source.size) (lastText t.source)
  rw [map_tag_tokens] at hsense
  rw [← Template.shown_view, ← Template.shown_view, htree]
  exact congrFun (congrArg Sense.whole hsense) scope

/-- The output of a template does not tell whether its blocks are closed. -/
theorem Template.output_includedAt_closed (hend : Even (bracketsAtEnd t.source)) (scope : Scope) :
    (includedAt partials (depth + 1) t.closed scope).output
      = (includedAt partials (depth + 1) t scope).output := by
  have hvw := View.alike_ofOutput partials (includedAt partials depth) t t.closed
  exact (t.of_includedAt_closed partials depth hend hvw
    (fun _ _ _ _ => View.report_ofOutput ..) (fun _ _ => Token.alike_ofOutput _ _ _ _ rfl rfl)
    scope).symm

/-- The gists of all diagnostics. -/
def gists : Observation (Fault × Text × Span) :=
  .diagnostics (fun _ => true) Diagnostic.gist

/-- The gists of all diagnostics but those about blocks of `t` that nothing closes. -/
def Template.otherGists : Observation (Fault × Text × Span) :=
  .diagnostics (fun d => !d.isUnclosedOf t) Diagnostic.gist

/-- Any other fault has the same gist in the closed template. -/
theorem Template.otherGists_ofDiagnostic {fault : Fault} (hfault : fault.isUnclosed = false)
    {stop : Nat} (hstop : stop ≤ t.source.size) (start : Nat) :
    t.otherGists.of (.ofDiagnostic (t.diagnostic fault start stop))
      = gists.of (.ofDiagnostic (t.closed.diagnostic fault start stop)) := by
  simp [otherGists, gists, Observation.diagnostics, Rendered.ofDiagnostic, Diagnostic.isUnclosedOf,
    Template.diagnostic, hfault, Diagnostic.gist, closed, Span.locate_append hstop]

variable {partials depth t}

/-- What a partial reports is about partials, so it is not about a template that is none. -/
theorem Template.otherGists_includedAt (hname : partials.get? t.name = none) {name : Text}
    {u : Template} (hu : partials.get? name = some u) (scope : Scope) :
    t.otherGists.of (includedAt partials depth u scope)
      = gists.of (includedAt partials depth u scope) := by
  have hother : ∀ d ∈ (includedAt partials depth u scope).diagnostics,
      d.isUnclosedOf t = false := by
    intro d hd
    obtain ⟨p, hp, hpoints⟩ := pointsInto_of_mem_includedAt hd
    have hregistered : partials.get? p.name = some p := by
      rcases hp with rfl | hp
      · rwa [Registry.name_of_get? hu]
      · exact hp
    -- what a partial says is about a registered template
    have hne : d.template ≠ t.name := by
      intro heq
      rw [← heq, hpoints.template_eq, hregistered] at hname
      cases hname
    simp [Diagnostic.isUnclosedOf, hne]
  have hfilter := List.filter_eq_self.2 fun d hd => congrArg not (hother d hd)
  simp only [otherGists, gists, Observation.diagnostics]
  rw [hfilter, List.filter_true]

/-- Closing a template takes away what it reports of its open blocks, and nothing else. -/
theorem Template.gists_includedAt_closed (hend : Even (bracketsAtEnd t.source))
    (hname : partials.get? t.name = none) (scope : Scope) :
    gists.of (includedAt partials (depth + 1) t.closed scope)
      = t.otherGists.of (includedAt partials (depth + 1) t scope) := by
  have htext : (t.view partials depth t.otherGists).Alike (t.closed.view partials depth gists) :=
    ⟨fun _ => rfl⟩
  refine (t.of_includedAt_closed partials depth hend htext (fun path start stop kind => ?_)
    (fun k hk => ⟨rfl, rfl, fun name _ => ?_, fun kind path close _ => ?_⟩) scope).symm
  · simp [View.report, BlockHead.report, BlockKind.endFault?, view, otherGists,
      Observation.diagnostics, Rendered.ofDiagnostic, Diagnostic.isUnclosedOf, Template.diagnostic,
      Fault.isUnclosed]
  · rw [View.sense_singleton _ (by simp), View.sense_singleton _ (by simp)]
    refine congrArg Sense.leaf (funext fun scope => ?_)
    rw [View.shown, View.shown, evalAll_singleton, evalAll_singleton, Fragment.eval, Fragment.eval]
    simp only [view]
    cases hu : partials.get? name with
    | none => exact t.otherGists_ofDiagnostic rfl (stop_le_size_of_mem_tokens hk) k.start
    | some u => exact otherGists_includedAt hname hu scope
  · simp only [View.report, BlockHead.report, view]
    cases hfault : kind.endFault? (some close) with
    | none => exact t.otherGists.of_empty.trans gists.of_empty.symm
    | some fault =>
      -- the block is closed, so the fault is that of a tag of another kind
      have hclosed : fault.isUnclosed = false := by
        rw [BlockKind.endFault?] at hfault
        split at hfault
        · cases hfault
        · exact Option.some.inj hfault ▸ rfl
      exact t.otherGists_ofDiagnostic hclosed (stop_le_size_of_mem_tokens hk) k.start

end Templates

/-- **A block that nothing closes renders as if it was closed at the end.** With tags at its end
that close what it leaves open, a template writes the same, and reports the same but for the blocks
that nothing closed. -/
theorem renderTemplate_closed {partials : Registry} {t : Template}
    (hname : partials.get? t.name = none) (hend : Even (bracketsAtEnd t.source)) (scope : Scope) :
    (renderTemplate partials t.closed scope).output = (renderTemplate partials t scope).output ∧
      (renderTemplate partials t.closed scope).diagnostics.map Diagnostic.gist
        = ((renderTemplate partials t scope).diagnostics.filter
            fun d => !d.isUnclosedOf t).map Diagnostic.gist := by
  have hgists : gists.of (renderTemplate partials t.closed scope)
      = t.otherGists.of (renderTemplate partials t scope) :=
    Template.gists_includedAt_closed hend hname scope
  simp only [gists, Template.otherGists, Observation.diagnostics, List.filter_true] at hgists
  exact ⟨t.output_includedAt_closed partials _ hend scope, hgists⟩

/-! ### A page with open blocks -/

/-- A page that leaves two blocks open, after a block that a tag of another kind closes, and that
ends in two brackets. -/
def openPage : Template :=
  .ofSource "page".toList
    ("\x7b\x7b#each rows\x7d\x7d[\x7b\x7b#if this\x7d\x7d".toList
      ++ "\x7b\x7b#if no\x7d\x7d\x7b\x7b/unless\x7d\x7dx\x7b\x7b".toList)

/-- A context with one row. -/
def oneRow : Context :=
  .ofFields [("rows".toList, .list [.bool true])]

/-- The tags behind the page close the `if` block, and then the `each` block around it. -/
theorem renderTemplate_closed_openPage :
    openPage.closed.source = openPage.source ++ "\x7b\x7b/if\x7d\x7d\x7b\x7b/each\x7d\x7d".toList ∧
      (∅ : Registry).get? openPage.name = none ∧ Even (bracketsAtEnd openPage.source) ∧
      (renderTemplate ∅ openPage.closed (.root oneRow ∅)).output
        = (renderTemplate ∅ openPage (.root oneRow ∅)).output ∧
      (renderTemplate ∅ openPage.closed (.root oneRow ∅)).diagnostics.map Diagnostic.gist
        = ((renderTemplate ∅ openPage (.root oneRow ∅)).diagnostics.filter
            fun d => !d.isUnclosedOf openPage).map Diagnostic.gist :=
  ⟨by decide +kernel, rfl, by decide, renderTemplate_closed rfl (by decide) _⟩

end Stencil
