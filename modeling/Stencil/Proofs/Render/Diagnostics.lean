import Stencil.Engine.Output
import Stencil.Proofs.Render.Marks
import Stencil.Proofs.Render.Meaning

/-!
# Where diagnostics point

A diagnostic names a template and bytes of its source. They are those of the tag at fault, wherever
in the nesting of blocks, branches and partials it was met:

* `TagAt` — a tag stands between two byte places of a source, and reading there gives all of it;
* `Fault.IsAbout` — which tags a fault can be found with;
* `mem_diagnostics_evalAll` — what a tree says about its template, it says about its marks;
* `Engine.pointsInto_of_mem_diagnostics` — so every diagnostic of a render points at a tag of the
  rendered template or of a partial.

Partials are registered under their own names, which is part of what a `Registry` is, so the name in
a diagnostic is enough to find the source that it points into.
-/

namespace Stencil

/-! ### Tags in a source -/

/-- Whether **a tag stands between two bytes of a source**: reading at the first one gives the tag,
and its text reaches to the second one. -/
def TagAt (source : Text) (tag : Tag) (start stop : Nat) : Prop :=
  ∃ before lexeme after, source = before ++ lexeme ++ after ∧
    start = before.size ∧ stop = before.size + lexeme.size ∧
    Tag.lex? (lexeme ++ after) = some ⟨tag, lexeme, after⟩

/-- Such places are moved nowhere when they are located. -/
theorem TagAt.locate_eq {source : Text} {tag : Tag} {start stop : Nat}
    (h : TagAt source tag start stop) :
    (Span.locate source start stop).start = start ∧
      (Span.locate source start stop).stop = stop := by
  obtain ⟨before, lexeme, after, rfl, rfl, rfl, -⟩ := h
  exact Span.locate_of_append before lexeme after

/-- A token of a source is a tag there. -/
theorem tagAt_of_mem_tokens {source : Text} {k : Token} (h : k ∈ tokens 0 source) :
    TagAt source k.tag k.start k.stop := by
  obtain ⟨before, after, hsource, hstart, hlex, -⟩ := exists_parts_of_mem_tokens h
  rw [Nat.zero_add] at hstart
  refine ⟨before, k.lexeme, after, hsource, hstart, ?_, hlex⟩
  change k.start + k.lexeme.size = _
  rw [hstart]

/-- A mark of the tree of a template is a tag of its source. -/
theorem Template.tagAt_of_mem_marks {t : Template} {m : Mark} (h : m ∈ marksAll t.tree) :
    TagAt t.source m.tag m.start m.stop := by
  obtain ⟨k, hk, rfl⟩ := mem_of_mem_marksAll_treeOf h
  exact tagAt_of_mem_tokens hk

/-! ### Faults and tags -/

/-- Whether a fault can be that of a tag. -/
def Fault.IsAbout (partials : Registry) (tag : Tag) : Fault → Prop
  | .missingPartial name => tag = .inclusion name ∧ partials.get? name = none
  | .unclosedBlock kind => ∃ path, tag = .opening kind path
  | .mismatchedClose kind _ => ∃ path, tag = .opening kind path

/-- The fault with the end of a block is one of its opening tag. -/
theorem BlockKind.isAbout_endFault? {partials : Registry} {kind : BlockKind}
    {close : Option BlockKind} {fault : Fault} (h : kind.endFault? close = some fault)
    (path : Text) : fault.IsAbout partials (.opening kind path) := by
  unfold endFault? at h
  split at h
  · obtain rfl := Option.some.inj h
    exact ⟨path, rfl⟩
  · split at h
    · cases h
    · obtain rfl := Option.some.inj h
      exact ⟨path, rfl⟩

/-- Whether a diagnostic **points into a template**: at a tag of its source, with which the fault
can be found. -/
structure Diagnostic.PointsInto (d : Diagnostic) (partials : Registry) (t : Template) : Prop where
  template_eq : d.template = t.name
  source_eq : d.source = t.source
  /-- Lines and columns are those of the bytes. -/
  span_eq : d.span = .locate t.source d.span.start d.span.stop
  exists_tag : ∃ tag, TagAt t.source tag d.span.start d.span.stop ∧ d.fault.IsAbout partials tag

/-- The diagnostic of a fault with a tag points at the tag. -/
theorem TagAt.pointsInto {partials : Registry} {t : Template} {tag : Tag} {start stop : Nat}
    {fault : Fault} (h : TagAt t.source tag start stop) (hfault : fault.IsAbout partials tag) :
    (t.diagnostic fault start stop).PointsInto partials t := by
  obtain ⟨hstart, hstop⟩ := h.locate_eq
  refine ⟨rfl, rfl, ?_, tag, ?_, hfault⟩
  · change Span.locate t.source start stop = .locate t.source
      (Span.locate t.source start stop).start (Span.locate t.source start stop).stop
    rw [hstart, hstop]
  · change TagAt t.source tag (Span.locate t.source start stop).start
      (Span.locate t.source start stop).stop
    rw [hstart, hstop]
    exact h

/-! ### What trees report -/

section Trees

variable {partials : Registry} {included : Template → Scope → Rendered} {template : Template}
  {d : Diagnostic}

/-- Whether a diagnostic is about one of some marks of `template`, or comes from a partial. -/
def Reported (partials : Registry) (included : Template → Scope → Rendered) (template : Template)
    (marks : List Mark) (d : Diagnostic) : Prop :=
  (∃ m ∈ marks, ∃ fault, fault.IsAbout partials m.tag ∧
      d = template.diagnostic fault m.start m.stop) ∨
    ∃ name t, partials.get? name = some t ∧ ∃ scope, d ∈ (included t scope).diagnostics

theorem Reported.mono {ms ns : List Mark} (h : Reported partials included template ms d)
    (hsub : ms ⊆ ns) : Reported partials included template ns d :=
  h.imp_left fun ⟨m, hm, hfault⟩ => ⟨m, hsub hm, hfault⟩

/-- What is said about the end of a block is about its opening tag. -/
theorem BlockHead.reported_of_mem_report {head : BlockHead} {kind : BlockKind}
    (h : d ∈ (head.report template kind).diagnostics) (marks : List Mark) :
    Reported partials included template (head.mark kind :: marks) d := by
  unfold report at h
  split at h
  · cases h
  · next fault hfault =>
    obtain rfl := List.mem_singleton.1 h
    exact .inl ⟨head.mark kind, List.mem_cons_self, fault,
      BlockKind.isAbout_endFault? hfault head.path, rfl⟩

mutual

theorem Fragment.mem_diagnostics_eval (x : Fragment) {scope : Scope}
    (h : d ∈ (x.eval partials included template scope).diagnostics) :
    Reported partials included template x.marks d := by
  cases x with
  | text t =>
    rw [Fragment.eval] at h
    cases h
  | value path =>
    rw [Fragment.eval] at h
    cases h
  | alternative =>
    rw [Fragment.eval] at h
    cases h
  | inclusion name start stop =>
    rw [Fragment.eval] at h
    cases ht : partials.get? name with
    | none =>
      rw [ht] at h
      obtain rfl := List.mem_singleton.1 h
      rw [Fragment.marks]
      exact .inl ⟨_, List.mem_singleton_self _, .missingPartial name, ⟨rfl, ht⟩, rfl⟩
    | some t =>
      -- the tag itself is fine, so the partial said it
      rw [ht] at h
      exact .inr ⟨name, t, ht, scope, h⟩
  | each head body =>
    rw [Fragment.eval, Rendered.diagnostics_append, List.mem_append] at h
    rw [Fragment.marks]
    rcases h with h | h
    · exact head.reported_of_mem_report h _
    · -- one of the rounds said it
      obtain ⟨r, hr, hd⟩ := Rendered.mem_diagnostics_join.1 h
      obtain ⟨index, hindex, rfl⟩ := List.mem_mapIdx.1 hr
      exact (mem_diagnostics_evalAll body hd).mono (List.subset_cons_self ..)
  | cond head first other? =>
    rw [Fragment.eval_cond, Rendered.diagnostics_append, List.mem_append] at h
    rw [Fragment.marks_cond]
    rcases h with h | h
    · exact head.reported_of_mem_report h _
    · -- only the branch that is taken says anything
      refine Reported.mono ?_ (List.subset_cons_self ..)
      split at h
      · exact (mem_diagnostics_evalAll first h).mono (List.subset_append_left ..)
      · match other? with
        | none => cases h
        | some other =>
          exact (mem_diagnostics_evalAll other h).mono (List.subset_append_right ..)
  | notCond head body =>
    rw [Fragment.eval, Rendered.diagnostics_append, List.mem_append] at h
    rw [Fragment.marks]
    rcases h with h | h
    · exact head.reported_of_mem_report h _
    · split at h
      · cases h
      · exact (mem_diagnostics_evalAll body h).mono (List.subset_cons_self ..)

/-- **What fragments report** is about their marks, or comes from a partial. -/
theorem mem_diagnostics_evalAll (xs : List Fragment) {scope : Scope}
    (h : d ∈ (evalAll partials included template xs scope).diagnostics) :
    Reported partials included template (marksAll xs) d := by
  cases xs with
  | nil =>
    rw [evalAll] at h
    cases h
  | cons x rest =>
    rw [evalAll, Rendered.diagnostics_append, List.mem_append] at h
    rw [marksAll_cons]
    rcases h with h | h
    · exact (Fragment.mem_diagnostics_eval x h).mono (List.subset_append_left ..)
    · exact (mem_diagnostics_evalAll rest h).mono (List.subset_append_right ..)

end

end Trees

/-! ### What renders report -/

/-- Whatever a template reports, at whatever depth of partials, points into it or into a partial. -/
theorem pointsInto_of_mem_includedAt {partials : Registry} {depth : Nat} {template : Template}
    {scope : Scope} {d : Diagnostic}
    (h : d ∈ (includedAt partials depth template scope).diagnostics) :
    ∃ t, (t = template ∨ partials.get? t.name = some t) ∧ d.PointsInto partials t := by
  -- on the depth of partials: what a partial says points into it, or into one further in
  induction depth generalizing template scope with
  | zero => cases h
  | succ depth ih =>
    rw [includedAt_succ] at h
    rcases mem_diagnostics_evalAll _ h with ⟨m, hm, fault, hfault, rfl⟩ | ⟨name, u, hu, scope', hd⟩
    · exact ⟨template, .inl rfl, (Template.tagAt_of_mem_marks hm).pointsInto hfault⟩
    · -- the partial is registered under its own name
      obtain ⟨t, ht, hpoints⟩ := ih hd
      refine ⟨t, .inr ?_, hpoints⟩
      rcases ht with rfl | ht
      · rw [Registry.name_of_get? hu]
        exact hu
      · exact ht

namespace Engine

/-- **Every diagnostic of a render** points at a tag of the rendered template or of a partial, with
which its fault can be found. -/
theorem pointsInto_of_mem_diagnostics (e : Engine) (template : Template) (context : Context)
    {d : Diagnostic} (h : d ∈ (e.renderIn template context).diagnostics) :
    ∃ t, (t = template ∨ e.partials.get? t.name = some t) ∧ d.PointsInto e.partials t := by
  change d ∈ (includedAt e.partials (_ + 1) template (.root context e.globals)).diagnostics at h
  exact pointsInto_of_mem_includedAt h

end Engine

/-! ### A cell that is missing -/

/-- A partial for rows whose cell does not exist. -/
def rowWithoutCell : Template :=
  .ofSource "row".toList "\n\x7b\x7b> cell\x7d\x7d".toList

/-- A page that shows the row in its second branch. -/
def pageOfRow : Template :=
  .ofSource "page".toList
    "\x7b\x7b#if empty\x7d\x7d\x7b\x7belse\x7d\x7d\x7b\x7b> row\x7d\x7d".toList

/-- An engine with the partial for rows alone. -/
def engineOfRow : Engine :=
  { (∅ : Engine) with partials := (∅ : Registry).insert rowWithoutCell }

/-- The diagnostic of the missing cell: it points into the partial. -/
def missingCell : Diagnostic :=
  ⟨.missingPartial "cell".toList, "row".toList, ⟨2, 0, 2, 10, 1, 11⟩, rowWithoutCell.source⟩

theorem tree_rowWithoutCell :
    rowWithoutCell.tree = [.text "\n".toList, .inclusion "cell".toList 1 11, .text []] := by
  have hcell : nextTag rowWithoutCell.source = some ⟨"\n".toList, .inclusion "cell".toList,
      "\x7b\x7b> cell\x7d\x7d".toList, []⟩ := rfl
  rw [Template.tree, tokens_of_nextTag hcell, tokens_of_nextTag_none rfl,
    lastText_of_nextTag hcell, lastText_of_nextTag_none rfl]
  rfl

theorem tree_pageOfRow :
    pageOfRow.tree = [.text [], .cond ⟨"empty".toList, 0, 13, none⟩ [.text []]
      (some [.text [], .inclusion "row".toList 21 30, .text []])] := by
  have hif : nextTag pageOfRow.source = some ⟨[], .opening .cond "empty".toList,
      "\x7b\x7b#if empty\x7d\x7d".toList, "\x7b\x7belse\x7d\x7d\x7b\x7b> row\x7d\x7d".toList⟩ := rfl
  have helse : nextTag "\x7b\x7belse\x7d\x7d\x7b\x7b> row\x7d\x7d".toList = some ⟨[],
      .alternative, "\x7b\x7belse\x7d\x7d".toList, "\x7b\x7b> row\x7d\x7d".toList⟩ := rfl
  have hrow : nextTag "\x7b\x7b> row\x7d\x7d".toList = some ⟨[], .inclusion "row".toList,
      "\x7b\x7b> row\x7d\x7d".toList, []⟩ := rfl
  rw [Template.tree, tokens_of_nextTag hif, tokens_of_nextTag helse, tokens_of_nextTag hrow,
    tokens_of_nextTag_none rfl, lastText_of_nextTag hif, lastText_of_nextTag helse,
    lastText_of_nextTag hrow, lastText_of_nextTag_none rfl]
  rfl

theorem missingCell_mem : missingCell ∈ (engineOfRow.renderIn pageOfRow ∅).diagnostics := by
  have hrow : includedAt engineOfRow.partials 1 rowWithoutCell (.root ∅ ∅)
      = .ofText "\n".toList ++ .ofDiagnostic missingCell := by
    rw [includedAt_succ, tree_rowWithoutCell]
    rfl
  change _ ∈ (includedAt engineOfRow.partials 2 pageOfRow (.root ∅ ∅)).diagnostics
  rw [includedAt_succ, tree_pageOfRow]
  -- the block that nothing closes comes first
  change _ ∈ pageOfRow.diagnostic (.unclosedBlock .cond) 0 13 ::
    ((includedAt engineOfRow.partials 1 rowWithoutCell (.root ∅ ∅)).diagnostics ++ []) ++ []
  rw [hrow, List.append_nil, List.append_nil]
  exact List.mem_cons_of_mem _ (List.mem_singleton_self _)

theorem pointsInto_missingCell :
    missingCell ∈ (engineOfRow.renderIn pageOfRow ∅).diagnostics ∧
      ∃ t, (t = pageOfRow ∨ engineOfRow.partials.get? t.name = some t) ∧
        missingCell.PointsInto engineOfRow.partials t :=
  ⟨missingCell_mem, engineOfRow.pointsInto_of_mem_diagnostics pageOfRow ∅ missingCell_mem⟩

end Stencil
