import Stencil.Proofs.Render.Clean
import Stencil.Proofs.Render.Diagnostics

/-!
# Which faults are found

Whatever a template is like, it reports the faults of the tags that stand outside of all blocks
(`outermost`): each once, in their order, and whatever the data. And if block tags are well nested
and all partials exist, it reports nothing at all (`isClean_and_reports_outermost`).

A body can report as often as it is rendered, or never. But it says nothing about tags outside of
all blocks (`View.isSilent_of_marks`), so what is left of the diagnostics about those tags is what
they say about themselves (`shown_treeOf`). A partial cannot report a tag of the template either: it
would have to have the same source, and then it would include itself
(`Registry.Acyclic.source_ne`).
-/

namespace Stencil

/-! ### Tags outside of all blocks -/

/-- The tags that stand **outside of all blocks**, when `depth` blocks are open before the tokens;
each with the tokens behind it. -/
def outermost : Nat → List Token → List (Token × List Token)
  | _, [] => []
  | depth, k :: ks => (if depth = 0 then [(k, ks)] else []) ++ outermost (k.tag.depthAfter depth) ks

theorem outermost_zero_cons {k : Token} (h : k.tag.depthAfter 0 = 0) (ks : List Token) :
    outermost 0 (k :: ks) = (k, ks) :: outermost 0 ks := by
  rw [outermost, h]
  rfl

/-- Inside of a block, those are the tags outside of all blocks behind its end. -/
theorem outermost_succ (depth : Nat) (ks : List Token) :
    outermost (depth + 1) ks
      = ((closeAt depth ks).map fun x => outermost 0 x.after).getD [] := by
  induction ks generalizing depth with
  | nil => rfl
  | cons k ks ih =>
    rw [outermost, if_neg (Nat.succ_ne_zero depth), List.nil_append]
    -- the tag that ends the block, a tag that ends one further in, an opening one, or none of these
    cases htag : k.tag with
    | closing kind =>
      cases depth with
      | zero =>
        rw [closeAt, cutAt_of_hit (by rw [htag]; rfl)]
        rfl
      | succ depth =>
        rw [closeAt, cutAt_succ, htag, Option.map_map]
        exact ih depth
    | opening kind path =>
      rw [closeAt, cutAt_of_not_hit (by rw [htag]; rfl), htag, Option.map_map]
      exact ih (depth + 1)
    | _ =>
      rw [closeAt, cutAt_of_not_hit (by rw [htag]; rfl), htag, Option.map_map]
      exact ih depth

/-- Behind an opening tag, those are the tags outside of all blocks behind the block. -/
theorem outermost_opening {k : Token} {kind : BlockKind} {path : Text}
    (h : k.tag = .opening kind path) (ks : List Token) :
    outermost 0 (k :: ks)
      = (k, ks) :: ((closeAt 0 ks).map fun x => outermost 0 x.after).getD [] := by
  rw [← outermost_succ, outermost, h]
  rfl

/-- Tags outside of all blocks are some of the tags, in their order. -/
theorem sublist_outermost (depth : Nat) (ks : List Token) :
    ((outermost depth ks).map Prod.fst).Sublist ks := by
  induction ks generalizing depth with
  | nil => exact .slnil
  | cons k ks ih =>
    rw [outermost, List.map_append]
    split
    · exact (ih _).cons_cons k
    · exact (ih _).cons k

/-- The kind of the tag that closes a block, told from the tokens behind its opening tag. -/
def closeKind? (behind : List Token) : Option BlockKind :=
  (closeAt 0 behind).bind fun x => x.token.tag.closedKind?

/-- What is at fault with a tag, if anything, when the tokens `behind` follow it. -/
def Token.fault? (partials : Registry) (k : Token) (behind : List Token) : Option Fault :=
  match k.tag with
  | .opening kind _ => kind.endFault? (closeKind? behind)
  | .inclusion name => if (partials.get? name).isSome then none else some (.missingPartial name)
  | _ => none

/-- What a tag outside of all blocks has to report. -/
def Token.report? (partials : Registry) (t : Template) (x : Token × List Token) :
    Option Diagnostic :=
  (x.1.fault? partials x.2).map fun fault => t.diagnostic fault x.1.start x.1.stop

/-! ### What bodies do not report -/

section Kept

variable {partials : Registry} {included : Template → Scope → Rendered} {t : Template}
  {keep : Diagnostic → Bool}

/-- Looking at the diagnostics that are to be kept. -/
def View.ofDiagnostics (partials : Registry) (included : Template → Scope → Rendered)
    (t : Template) (keep : Diagnostic → Bool) : View Diagnostic :=
  ⟨partials, included, t, .diagnostics keep id⟩

theorem View.shown_ofDiagnostics (xs : List Fragment) (scope : Scope) :
    (ofDiagnostics partials included t keep).shown xs scope
      = (evalAll partials included t xs scope).diagnostics.filter keep :=
  List.map_id _

theorem View.report_ofDiagnostics {head : BlockHead}
    (hkeep : ∀ fault, keep (t.diagnostic fault head.start head.stop)) (kind : BlockKind) :
    (ofDiagnostics partials included t keep).report head kind
      = ((kind.endFault? head.close).map fun fault =>
          t.diagnostic fault head.start head.stop).toList := by
  simp only [report, BlockHead.report, ofDiagnostics, Observation.diagnostics]
  cases kind.endFault? head.close with
  | none => rfl
  | some fault => simp [Rendered.ofDiagnostic, hkeep]

/-- Whether none of the diagnostics of partials are kept. -/
def DropsPartials (partials : Registry) (included : Template → Scope → Rendered)
    (keep : Diagnostic → Bool) : Prop :=
  ∀ name u, partials.get? name = some u →
    ∀ scope, ∀ d ∈ (included u scope).diagnostics, keep d = false

/-- What shows no diagnostic about any of its marks is **silent**, if partials are. -/
theorem View.isSilent_of_marks
    (hdrop : DropsPartials partials included keep)
    {xs : List Fragment}
    (hmarks : ∀ m ∈ marksAll xs, ∀ fault, keep (t.diagnostic fault m.start m.stop) = false) :
    ((ofDiagnostics partials included t keep).sense xs).IsSilent := by
  have hshown (ys : List Fragment) (hys : marksAll ys ⊆ marksAll xs) (scope : Scope) :
      (ofDiagnostics partials included t keep).shown ys scope = [] := by
    rw [shown_ofDiagnostics, List.filter_eq_nil_iff]
    intro d hd
    rw [Bool.not_eq_true]
    -- a diagnostic is about a mark of the template, or comes from a partial; neither is kept
    rcases mem_diagnostics_evalAll ys hd with ⟨m, hm, fault, -, rfl⟩ | ⟨name, u, hu, scope', hd⟩
    · exact hmarks m (hys hm) fault
    · exact hdrop name u hu scope' d hd
  refine ⟨hshown xs (List.Subset.refl _), hshown _ fun m hm => ?_, fun other hother => ?_⟩
  · exact mem_marksAll_of_splitAlternative (List.mem_append_left _ hm)
  · obtain ⟨ys, hys, rfl⟩ := Option.map_eq_some_iff.1 hother
    refine hshown ys fun m hm => ?_
    apply mem_marksAll_of_splitAlternative
    rw [hys]
    exact List.mem_append_right _ hm

/-! ### What outermost tags report -/

/-- Whether, of the diagnostics about some tags, just those about tags outside of all blocks are
kept. -/
def KeepsOutermost (keep : Diagnostic → Bool) (t : Template) (ks : List Token) : Prop :=
  ∀ k ∈ ks, ∀ fault,
    keep (t.diagnostic fault k.start k.stop) ↔ k ∈ (outermost 0 ks).map Prod.fst

namespace KeepsOutermost

variable {k k' : Token} {ks rest : List Token} (h : KeepsOutermost keep t (k :: ks))
  (horder : InOrder (k :: ks)) (hout : outermost 0 (k :: ks) = (k, ks) :: outermost 0 rest)
include h horder hout

/-- Of the tags behind the first one, just those are kept that stand outside of all blocks among
`rest`, if these are all that there are. -/
theorem keep_iff (hk' : k' ∈ ks) (fault : Fault) :
    keep (t.diagnostic fault k'.start k'.stop) ↔ k' ∈ (outermost 0 rest).map Prod.fst := by
  have hne : k' ≠ k := by
    rintro rfl
    exact Nat.lt_irrefl _ ((List.pairwise_cons.1 horder).1 k' hk')
  rw [h k' (List.mem_cons_of_mem _ hk') fault, hout, List.map_cons, List.mem_cons]
  exact or_iff_right hne

theorem behind (hsub : rest ⊆ ks) : KeepsOutermost keep t rest :=
  fun _ hk' fault => h.keep_iff horder hout (hsub hk') fault

theorem keep_eq_false (hk' : k' ∈ ks) (hrest : k' ∉ rest) (fault : Fault) :
    keep (t.diagnostic fault k'.start k'.stop) = false := by
  rw [← Bool.not_eq_true, h.keep_iff horder hout hk']
  exact fun hmem => hrest ((sublist_outermost 0 rest).subset hmem)

/-- So tags that do not stand outside of all blocks show nothing, whatever tree they make. -/
theorem isSilent_treeOf (hdrop : DropsPartials partials included keep)
    {ls : List Token} (hls : ∀ k' ∈ ls, k' ∈ ks ∧ k' ∉ rest) (last : Text) :
    ((View.ofDiagnostics partials included t keep).sense (treeOf ls last)).IsSilent := by
  refine View.isSilent_of_marks hdrop fun m hm fault => ?_
  obtain ⟨k', hk', rfl⟩ := mem_of_mem_marksAll_treeOf hm
  exact h.keep_eq_false horder hout (hls k' hk').1 (hls k' hk').2 fault

end KeepsOutermost

/-- A tag that is no block tag shows what it has to report. -/
theorem shown_plain_eq_report? (hdrop : DropsPartials partials included keep) {k : Token}
    (hk : ∀ fault, keep (t.diagnostic fault k.start k.stop)) {y : Fragment}
    (hy : k.plain? = some y) (ks : List Token) (scope : Scope) :
    (View.ofDiagnostics partials included t keep).shown [y] scope
      = (Token.report? partials t (k, ks)).toList := by
  rw [View.shown_ofDiagnostics, evalAll_singleton, Token.report?, Token.fault?]
  unfold Token.plain? at hy
  split at hy
  · next htag => cases hy; rw [htag, Fragment.eval]; rfl
  · next htag => cases hy; rw [htag, Fragment.eval]; rfl
  -- a missing partial is the only fault of a tag that stands for itself
  · next name htag =>
    cases hy
    rw [htag, Fragment.eval]
    cases hu : partials.get? name with
    | none => simp [hu, Rendered.ofDiagnostic, hk]
    | some u => simpa [hu] using hdrop name u hu scope
  · cases hy

/-- A block with a silent body shows what its opening tag has to report. -/
theorem shown_block_eq_report? {k : Token} {ks : List Token} {kind : BlockKind} {path : Text}
    (hk : ∀ fault, keep (t.diagnostic fault k.start k.stop)) (htag : k.tag = .opening kind path)
    {close : Option BlockKind} (hclose : closeKind? ks = close) {body : List Fragment}
    (hbody : ((View.ofDiagnostics partials included t keep).sense body).IsSilent)
    (scope : Scope) :
    (View.ofDiagnostics partials included t keep).shown
        [(Parser.opened [] kind path k).block close body] scope
      = (Token.report? partials t (k, ks)).toList := by
  rw [View.shown_block hbody, View.report_ofDiagnostics hk, Token.report?, Token.fault?, htag]
  simp only [hclose]
  rfl

/-- The fragments of one more tag show what this tag has to report and then what is behind it. -/
theorem shown_cons_report {x : Token × List Token} {xs : List (Token × List Token)}
    {y : Fragment} {tail : List Fragment} {scope : Scope}
    (hy : (View.ofDiagnostics partials included t keep).shown [y] scope
      = (Token.report? partials t x).toList)
    (htail : (View.ofDiagnostics partials included t keep).shown tail scope
      = xs.filterMap (Token.report? partials t)) (before : Text) :
    (View.ofDiagnostics partials included t keep).shown (.text before :: y :: tail) scope
      = (x :: xs).filterMap (Token.report? partials t) := by
  have htext : (View.ofDiagnostics partials included t keep).shown [.text before] scope = [] :=
    View.shown_text _ before scope
  rw [View.shown_cons, View.shown_cons _ y, htext, hy, htail, List.filterMap_cons]
  cases Token.report? partials t x with
  | none => rfl
  | some d => rfl

/-- **What is kept of a tree** is what the tags outside of all blocks report. -/
theorem shown_treeOf (hdrop : DropsPartials partials included keep) {ks : List Token}
    (hkeep : KeepsOutermost keep t ks) (horder : InOrder ks) (last : Text) (scope : Scope) :
    (View.ofDiagnostics partials included t keep).shown (treeOf ks last) scope
      = (outermost 0 ks).filterMap (Token.report? partials t) := by
  -- by length, because behind a block the tags go on where it ends
  induction hn : ks.length using Nat.strongRecOn generalizing ks with
  | ind n ih =>
    subst hn
    cases ks with
    | nil => rw [treeOf_nil, View.shown_text]; rfl
    | cons k ks =>
      have hk (fault : Fault) : keep (t.diagnostic fault k.start k.stop) :=
        (hkeep k List.mem_cons_self fault).2 List.mem_cons_self
      have hks := List.Pairwise.tail horder
      -- behind a tag that opens no block, all tags are left
      have hbehind (hdepth : k.tag.depthAfter 0 = 0) :=
        ih ks.length (Nat.lt_succ_self _) (hkeep.behind horder (outermost_zero_cons hdepth ks)
          (List.Subset.refl _)) hks rfl
      have hplain {y : Fragment} (hy : k.plain? = some y) (hdepth : k.tag.depthAfter 0 = 0) :
          (View.ofDiagnostics partials included t keep).shown (treeOf (k :: ks) last) scope
            = (outermost 0 (k :: ks)).filterMap (Token.report? partials t) := by
        rw [treeOf_plain hy, outermost_zero_cons hdepth]
        exact shown_cons_report (shown_plain_eq_report? hdrop hk hy ks scope) (hbehind hdepth) _
      cases htag : k.tag with
      | opening kind path =>
        cases hclosed : closeAt 0 ks with
        | none =>
          have hout : outermost 0 (k :: ks) = (k, ks) :: outermost 0 [] := by
            rw [outermost_opening htag, hclosed]
            rfl
          -- all the other tags stand in the block, so it shows what is said about its end
          have hbody := hkeep.isSilent_treeOf horder hout hdrop
            (fun k' hk' => ⟨hk', List.not_mem_nil⟩) last
          have hends : closeKind? ks = none := by rw [closeKind?, hclosed]; rfl
          rw [treeOf_unclosed htag hclosed, hout]
          exact shown_cons_report (shown_block_eq_report? hk htag hends hbody scope)
            (View.shown_nil _ scope) _
        | some x =>
          have hout : outermost 0 (k :: ks) = (k, ks) :: outermost 0 x.after := by
            rw [outermost_opening htag, hclosed]
            rfl
          obtain ⟨close, hclose⟩ := Tag.isClosing_iff.1 (hit_of_cutAt hclosed)
          have hlength := length_of_cutAt hclosed
          obtain rfl : x.before ++ x.token :: x.after = ks := all_of_cutAt hclosed
          obtain ⟨-, hafter, hacross⟩ := List.pairwise_append.1 hks
          -- the tags in the block stand before those behind it
          have hbody := hkeep.isSilent_treeOf horder hout hdrop (fun k' hk' =>
            ⟨List.mem_append_left _ hk', fun hmem => Nat.lt_irrefl _
              (hacross k' hk' k' (List.mem_cons_of_mem _ hmem))⟩) x.token.before
          have hends : closeKind? (x.before ++ x.token :: x.after) = some close := by
            rw [closeKind?, hclosed, Option.bind_some, hclose]; rfl
          have hrest := ih x.after.length (by simp only [List.length_cons, hlength]; omega)
            (hkeep.behind horder hout fun k' hk' =>
              List.mem_append_right _ (List.mem_cons_of_mem _ hk'))
            (List.Pairwise.tail hafter) rfl
          rw [treeOf_closed htag hclosed hclose, hout]
          exact shown_cons_report (shown_block_eq_report? hk htag hends hbody scope) hrest _
      | closing kind =>
        have hdepth : k.tag.depthAfter 0 = 0 := by rw [htag]; rfl
        rw [treeOf_closing htag, outermost_zero_cons hdepth]
        refine shown_cons_report ?_ (hbehind hdepth) _
        rw [View.shown_text, Token.report?, Token.fault?, htag]
        rfl
      | value path => exact hplain (by rw [Token.plain?, htag]) (by rw [htag]; rfl)
      | alternative => exact hplain (by rw [Token.plain?, htag]) (by rw [htag]; rfl)
      | inclusion name => exact hplain (by rw [Token.plain?, htag]) (by rw [htag]; rfl)

end Kept

/-! ### What partials report -/

/-- What a template reports is about its tags, or comes from a partial that it includes. -/
theorem mem_diagnostics_tree {partials : Registry} {included : Template → Scope → Rendered}
    {t : Template} {scope : Scope} {d : Diagnostic}
    (h : d ∈ (evalAll partials included t t.tree scope).diagnostics) :
    d.source = t.source ∨ ∃ name u, t.Includes name ∧ partials.get? name = some u ∧
      ∃ scope', d ∈ (included u scope').diagnostics := by
  rw [← t.evalAll_needed] at h
  rcases mem_diagnostics_evalAll _ h with ⟨m, -, fault, -, rfl⟩ | ⟨name, u, hu, scope', hd⟩
  · exact .inl rfl
  · rw [Template.needed] at hd
    split at hd
    · next hincludes => exact .inr ⟨name, u, Registry.name_of_get? hu ▸ hincludes, hu, scope', hd⟩
    · cases hd

/-- What a partial reports is about itself or about a partial to which inclusions lead from it. -/
theorem exists_source_of_mem_includedAt {partials : Registry} {depth : Nat} {name : Text}
    {u : Template} (hu : partials.get? name = some u) {scope : Scope} {d : Diagnostic}
    (h : d ∈ (includedAt partials depth u scope).diagnostics) :
    ∃ other p, partials.get? other = some p ∧ d.source = p.source ∧
      Relation.ReflTransGen partials.Includes name other := by
  induction depth generalizing name u scope with
  | zero => cases h
  | succ depth ih =>
    rw [includedAt_succ] at h
    rcases mem_diagnostics_tree h with hd | ⟨next, w, hincludes, hw, scope', hd⟩
    · exact ⟨name, u, hu, hd, .refl⟩
    · obtain ⟨other, p, hp, hsource, hpath⟩ := ih hw hd
      exact ⟨other, p, hp, hsource, .head ⟨u, hu, hincludes⟩ hpath⟩

/-- **A partial reports nothing about a template that includes it**: with the source of the template
it would include itself. -/
theorem Registry.Acyclic.source_ne {partials : Registry} (hacyclic : partials.Acyclic)
    {t u : Template} {name : Text} (hincludes : t.Includes name)
    (hu : partials.get? name = some u) {scope : Scope} {d : Diagnostic}
    (h : d ∈ (renderTemplate partials u scope).diagnostics) : d.source ≠ t.source := by
  intro hsource
  change d ∈ (includedAt partials (_ + 1) u scope).diagnostics at h
  obtain ⟨other, p, hp, hd, hpath⟩ := exists_source_of_mem_includedAt hu h
  have hback : partials.Includes other name := by
    refine ⟨p, hp, ?_⟩
    rw [Template.Includes, ← hd, hsource]
    exact hincludes
  exact hacyclic name (.tail' hpath hback)

/-! ### What templates report -/

/-- The tags of a template outside of all blocks, each with the tokens behind it. -/
def Template.outermost (t : Template) : List (Token × List Token) :=
  Stencil.outermost 0 (tokens 0 t.source)

/-- Whether a diagnostic is about a tag of `t` outside of all blocks. -/
def Diagnostic.isAboutOutermost (t : Template) (d : Diagnostic) : Bool :=
  d.template = t.name && d.source = t.source &&
    t.outermost.any fun x => d.span = .locate t.source x.1.start x.1.stop

/-- The diagnostics of the tags of a template outside of all blocks that are **at fault**: an
opening tag whose block nothing closes, or a tag of another kind, and one that includes a partial
which does not exist. -/
def Template.outermostReports (partials : Registry) (t : Template) : List Diagnostic :=
  t.outermost.filterMap (Token.report? partials t)

/-- Places tell tags apart, so a diagnostic of a tag in a block is never taken for one of a tag
outside of all blocks. -/
theorem Template.keepsOutermost (t : Template) :
    KeepsOutermost (Diagnostic.isAboutOutermost t) t (tokens 0 t.source) := by
  intro k hk fault
  have hlocate {k : Token} (hk : k ∈ tokens 0 t.source) :
      (Span.locate t.source k.start k.stop).start = k.start := (tagAt_of_mem_tokens hk).locate_eq.1
  simp only [Diagnostic.isAboutOutermost, diagnostic, decide_true, Bool.true_and, List.any_eq_true,
    List.mem_map]
  constructor
  -- two tags with the same place are the same tag
  · rintro ⟨x, hx, hspan⟩
    have hmem := (sublist_outermost 0 _).subset (List.mem_map_of_mem hx)
    have hstart := congrArg Span.start (of_decide_eq_true hspan)
    rw [hlocate hk, hlocate hmem] at hstart
    exact ⟨x, hx, ((inOrder_tokens 0 t.source).eq_of_start_eq hk hmem hstart).symm⟩
  · rintro ⟨x, hx, rfl⟩
    exact ⟨x, hx, decide_eq_true rfl⟩

section Reports

variable {partials : Registry} (t : Template)

/-- What a template reports about its tags outside of all blocks. -/
theorem Template.filter_diagnostics (hacyclic : partials.Acyclic) (scope : Scope) :
    (renderTemplate partials t scope).diagnostics.filter (Diagnostic.isAboutOutermost t)
      = t.outermostReports partials := by
  -- what partials say is about other sources, since none of them includes the template
  have hdrop : DropsPartials partials (t.needed (renderTemplate partials))
      (Diagnostic.isAboutOutermost t) := by
    intro name u hu scope' d hd
    rw [needed] at hd
    split at hd
    · next hincludes =>
      rw [Registry.name_of_get? hu] at hincludes
      have hsource := hacyclic.source_ne hincludes hu hd
      simp [Diagnostic.isAboutOutermost, hsource]
    · cases hd
  rw [isMeaning_renderTemplate hacyclic, ← t.evalAll_needed, ← View.shown_ofDiagnostics]
  exact shown_treeOf hdrop t.keepsOutermost (inOrder_tokens 0 t.source) (lastText t.source) scope

/-- Tags outside of all blocks are reported in their order, and none twice. -/
theorem Template.pairwise_outermostReports :
    (t.outermostReports partials).Pairwise (·.span.start < ·.span.start) := by
  have hsub := sublist_outermost 0 (tokens 0 t.source)
  have horder := List.pairwise_map.1 ((inOrder_tokens 0 t.source).sublist hsub)
  rw [outermostReports, List.pairwise_filterMap]
  refine List.Pairwise.imp_of_mem (fun {x y} hx hy hlt d hd d' hd' => ?_) horder
  obtain ⟨fault, -, rfl⟩ := Option.map_eq_some_iff.1 hd
  obtain ⟨fault', -, rfl⟩ := Option.map_eq_some_iff.1 hd'
  -- a report is located where its tag begins
  have hstart {x : Token × List Token} (hx : x ∈ t.outermost) :
      (Span.locate t.source x.1.start x.1.stop).start = x.1.start :=
    (tagAt_of_mem_tokens (hsub.subset (List.mem_map_of_mem hx))).locate_eq.1
  change (Span.locate ..).start < (Span.locate ..).start
  rw [hstart hx, hstart hy]
  exact hlt

end Reports

/-- **Counting finds the faults that there are.** If the block tags of a template and of all
partials are well nested and all partials exist that they include, nothing is reported. And what is
reported about the tags of any template outside of all blocks is, whatever the data, one diagnostic
for each that is at fault, in their order. -/
theorem isClean_and_reports_outermost {partials : Registry} (hacyclic : partials.Acyclic)
    (t : Template) (scope : Scope) :
    (t.IsSound partials → (∀ name u, partials.get? name = some u → u.IsSound partials) →
        (renderTemplate partials t scope).isClean) ∧
      (renderTemplate partials t scope).diagnostics.filter (Diagnostic.isAboutOutermost t)
        = t.outermostReports partials ∧
      (t.outermostReports partials).Pairwise (·.span.start < ·.span.start) := by
  refine ⟨fun ht hpartials => ?_, t.filter_diagnostics hacyclic scope, t.pairwise_outermostReports⟩
  have hclean := ht.includedAt hpartials (inclusionBound partials scope + 1) scope
  exact List.isEmpty_iff.2 hclean

/-! ### Two pages -/

/-- A page of well-nested blocks, which includes the partial for rows. -/
def soundPage : Template :=
  .ofSource "sound".toList
    ("\x7b\x7b#each rows\x7d\x7d\x7b\x7b#if this\x7d\x7d\x7b\x7b> row\x7d\x7d".toList
      ++ "\x7b\x7b/if\x7d\x7d\x7b\x7b/each\x7d\x7d".toList)

/-- A page with three slips outside of all blocks, and two inside of blocks. -/
def faultyPage : Template :=
  .ofSource "faulty".toList
    ("\x7b\x7b#if no\x7d\x7d\x7b\x7b> lost\x7d\x7d\x7b\x7b/each\x7d\x7d".toList
      ++ "\x7b\x7b> gone\x7d\x7d\x7b\x7b#each rows\x7d\x7d\x7b\x7b> gone\x7d\x7d".toList)

theorem isSound_rowsAndCells {name : Text} {u : Template} (hu : rowsAndCells.get? name = some u) :
    u.IsSound rowsAndCells := by
  refine ⟨?_, fun other hother => ?_⟩
  · rw [rowsAndCells, Registry.ofSources, List.foldl_cons, List.foldl_cons, List.foldl_nil,
      Registry.get?_insert, Registry.get?_insert] at hu
    split at hu
    · obtain rfl := Option.some.inj hu
      exact wellNested_iff.2 (by decide +kernel)
    · split at hu
      · obtain rfl := Option.some.inj hu
        exact wellNested_iff.2 (by decide +kernel)
      · cases hu
  · obtain ⟨-, rfl⟩ := rowsAndCells_includes ⟨u, hu, hother⟩
    exact ⟨_, rfl⟩

theorem isSound_soundPage : soundPage.IsSound rowsAndCells := by
  refine ⟨wellNested_iff.2 (by decide +kernel), fun name hname => ?_⟩
  have htags : (tags soundPage.source).map TagSplit.tag
      = [.opening .each "rows".toList, .opening .cond "this".toList, .inclusion "row".toList,
        .closing .cond, .closing .each] := by decide +kernel
  obtain ⟨s, hs, htag⟩ := hname
  have hmem := List.mem_map_of_mem (f := TagSplit.tag) hs
  rw [htags, htag] at hmem
  obtain rfl : name = "row".toList := by simpa using hmem
  exact ⟨_, rfl⟩

/-- The first page has nothing to report. The second one reports its three slips outside of all
blocks, whatever it reports of the others. -/
theorem isClean_and_reports_outermost_of_pages :
    let scope := .root (.ofFields [("rows".toList, .list [.bool true, .bool false])]) ∅
    rowsAndCells.Acyclic ∧ (renderTemplate rowsAndCells soundPage scope).isClean ∧
      (renderTemplate rowsAndCells faultyPage scope).diagnostics.filter
          (Diagnostic.isAboutOutermost faultyPage) = faultyPage.outermostReports rowsAndCells ∧
      (faultyPage.outermostReports rowsAndCells).map Diagnostic.fault
        = [.mismatchedClose .cond .each, .missingPartial "gone".toList, .unclosedBlock .each] :=
  ⟨acyclic_rowsAndCells,
    (isClean_and_reports_outermost acyclic_rowsAndCells soundPage _).1 isSound_soundPage
      fun _ _ => isSound_rowsAndCells,
    (isClean_and_reports_outermost acyclic_rowsAndCells faultyPage _).2.1, by decide +kernel⟩

end Stencil
