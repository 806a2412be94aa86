import Stencil.Proofs.Render.Checked
import Stencil.Proofs.Render.Names
import Stencil.Proofs.Tag.Cursor

/-!
# The renderer with a cursor

The library's renderer recurs on texts, and that it ends is part of its definition: partials nest up
to a bound. The program that it describes has neither. It walks over one source with a cursor,
writes slices of it, jumps over the blocks that it has scanned, and starts again on the source of a
partial wherever one is included, with nothing to stop it. Here is that program, on top of the walk
over tags with a cursor. Each of its operations is checked; and as it need not end, it is given
fuel, without which it says nothing.

* `renderFrom_of_ahead` — from a cursor, the program renders what `renderSection` makes of the text
  ahead of it. The sections of a block and the text behind a tag are shorter than that text, so this
  is an induction on its length, for as long as partials are left out;
* `renderTemplateFrom_of_needs` — partials may be longer than what includes them, but their rank
  goes down, so this is an induction on a bound of the rank;
* `run_renderTemplateFrom` — if no cycle of inclusions can be reached, a render ends without a
  mishap.
-/

namespace Stencil

/-! ### The renderer with a cursor -/

/-- What is said of the bytes from `start` to `stop` of a template. -/
def reportFrom (fuel : Nat) (template : Template) (fault : Fault) (start stop : Nat) :
    Checked Rendered := do
  let span ← locateFrom fuel template.source start stop
  return .ofDiagnostic ⟨fault, template.name, span, template.source⟩

/-- What is said of the end of a block whose opening tag has the bytes from `start` to `stop`. -/
def checkFrom (fuel : Nat) (template : Template) (block : Block) (start stop : Nat) :
    Checked Rendered :=
  match block.fault? with
  | some fault => reportFrom fuel template fault start stop
  | none => pure ∅

/-- Renders the body of an `each` block for the items that are left of `count`, of which the first
one is at `index`. The items before it have been rendered to `out`. -/
def renderRoundsFrom (render : Section → Checked Rendered) (body : Text) (offset : Nat)
    (scope : Scope) (count : Nat) : List Value → Nat → Rendered → Checked Rendered
  | [], _, out => pure out
  | item :: rest, index, out => do
    let inner ← render ⟨body, offset, .iteration scope item index count⟩
    renderRoundsFrom render body offset scope count rest (index + 1) (out ++ inner)

/-- Renders a block on `value` whose body begins at byte `offset` of the source. -/
def renderBlockFrom (render : Section → Checked Rendered) (fuel : Nat) (block : Block)
    (value : Value) (offset : Nat) (scope : Scope) : Checked Rendered := do
  match block.kind with
  | .each =>
    let items := value.items?.getD []
    renderRoundsFrom render block.body offset scope items.length items 0 ∅
  | .cond =>
    let (first, other?) ← splitFrom block.body fuel 0 0
    if value.isTruthy then render ⟨first, offset, scope⟩
    else
      match other? with
      | some other =>
        let start ← Checked.minus (offset + block.body.size) other.size
        render ⟨other, start, scope⟩
      | none => return ∅
  | .notCond =>
    if value.isTruthy then return ∅ else render ⟨block.body, offset, scope⟩

/-- Renders a section of a template from the cursor on. The tags before the cursor have been
rendered to `out`, together with the text up to the byte `pending`. -/
def renderFrom (partials : Registry) :
    Nat → Template → Section → Nat → Nat → Rendered → Checked Rendered
  | 0, _, _, _, _, _ => .unfinished
  | fuel + 1, template, part, cursor, pending, out => do
    match ← nextFrom part.text fuel cursor with
    | none =>
      let last ← Checked.slice part.text pending part.text.size
      return out ++ .ofText last
    | some (start, tag, stop) =>
      match tag with
      -- the text of the tag is written together with what follows it
      | .closing _ => renderFrom partials fuel template part stop pending out
      | .alternative =>
        let before ← Checked.slice part.text pending start
        let value := (part.scope.lookup Tag.elseWord).printed
        renderFrom partials fuel template part stop stop (out ++ .ofText (before ++ value))
      | .value path =>
        let before ← Checked.slice part.text pending start
        let value := (part.scope.lookup path).printed
        renderFrom partials fuel template part stop stop (out ++ .ofText (before ++ value))
      | .inclusion name =>
        let before ← Checked.slice part.text pending start
        let included ←
          match partials.get? name with
          | some t => renderFrom partials fuel t ⟨t.source, 0, part.scope⟩ 0 0 ∅
          | none =>
            reportFrom fuel template (.missingPartial name) (part.offset + start)
              (part.offset + stop)
        renderFrom partials fuel template part stop stop (out ++ .ofText before ++ included)
      | .opening kind path =>
        let before ← Checked.slice part.text pending start
        let content ← Checked.slice part.text stop part.text.size
        let block ← scanFrom kind content fuel 1 0
        let faults ← checkFrom fuel template block (part.offset + start) (part.offset + stop)
        let inner ← renderBlockFrom (fun x => renderFrom partials fuel template x 0 0 ∅) fuel block
          (part.scope.lookup path) (part.offset + stop) part.scope
        let behind ← Checked.minus part.text.size block.rest.size
        let cursor ← Checked.seek part.text stop behind
        renderFrom partials fuel template part cursor behind
          (out ++ .ofText before ++ faults ++ inner)

/-- Renders a template in a scope. -/
def renderTemplateFrom (partials : Registry) (fuel : Nat) (template : Template) (scope : Scope) :
    Checked Rendered :=
  renderFrom partials fuel template ⟨template.source, 0, scope⟩ 0 0 ∅

theorem reportFrom_eq {fuel : Nat} {template : Template} (hfuel : template.source.size < fuel)
    (fault : Fault) (start stop : Nat) :
    reportFrom fuel template fault start stop
      = pure (.ofDiagnostic (template.diagnostic fault start stop)) := by
  rw [reportFrom, locateFrom_eq hfuel, pure_bind]
  rfl

theorem checkFrom_eq {fuel : Nat} {template : Template} (hfuel : template.source.size < fuel)
    (block : Block) (start stop : Nat) :
    checkFrom fuel template block start stop
      = pure (.join (block.fault?.toList.map fun fault =>
          .ofDiagnostic (template.diagnostic fault start stop))) := by
  unfold checkFrom
  cases block.fault? with
  | none => rfl
  | some fault => exact reportFrom_eq hfuel fault start stop

/-! ### Blocks -/

section Blocks

variable {render : Section → Checked Rendered} {result : Section → Rendered}

/-- The rounds of an `each` block are rendered if each of them is. -/
theorem renderRoundsFrom_eq {body : Text} {offset : Nat} {scope : Scope} {count : Nat}
    {items : List Value} {index : Nat} (out : Rendered)
    (h : ∀ i item, items[i]? = some item →
      render ⟨body, offset, .iteration scope item (index + i) count⟩
        = pure (result ⟨body, offset, .iteration scope item (index + i) count⟩)) :
    renderRoundsFrom render body offset scope count items index out
      = pure (out ++ .join (items.mapIdx fun i item =>
          result ⟨body, offset, .iteration scope item (index + i) count⟩)) := by
  induction items generalizing index out with
  | nil => exact congrArg pure (Rendered.append_empty out).symm
  | cons item rest ih =>
    have hfirst := h 0 item rfl
    have further (i : Nat) : index + 1 + i = index + (i + 1) := by omega
    -- the rounds behind the first one count from one more
    have hrest : ∀ i x, rest[i]? = some x →
        render ⟨body, offset, .iteration scope x (index + 1 + i) count⟩
          = pure (result ⟨body, offset, .iteration scope x (index + 1 + i) count⟩) := by
      intro i x hx
      rw [further]
      exact h (i + 1) x hx
    rw [Nat.add_zero] at hfirst
    rw [renderRoundsFrom, hfirst, pure_bind, ih _ hrest, List.mapIdx_cons, Rendered.join_cons,
      Rendered.append_assoc]
    simp only [further, Nat.add_zero]

/-- **A block is rendered** if each section is to which it leads. -/
theorem renderBlockFrom_eq {fuel : Nat} {b : Block} (hfuel : b.body.length + 1 < fuel)
    {offset : Nat} {value : Value} {scope : Scope}
    (h : ∀ x ∈ b.sections offset value scope, render x = pure (result x)) :
    renderBlockFrom render fuel b value offset scope
      = pure (.join ((b.sections offset value scope).map result)) := by
  rw [renderBlockFrom]
  unfold Block.sections at h ⊢
  cases hkind : b.kind with
  | each =>
    simp only [hkind] at h ⊢
    -- each item is rendered with its own number
    have hrounds : ∀ i item, (value.items?.getD [])[i]? = some item →
        render ⟨b.body, offset, .iteration scope item (0 + i) (value.items?.getD []).length⟩
          = pure (result
              ⟨b.body, offset, .iteration scope item (0 + i) (value.items?.getD []).length⟩) := by
      intro i item hitem
      obtain ⟨hi, rfl⟩ := List.getElem?_eq_some_iff.1 hitem
      rw [Nat.zero_add]
      exact h _ (List.mem_mapIdx.2 ⟨i, hi, rfl⟩)
    rw [renderRoundsFrom_eq ∅ hrounds, Rendered.empty_append, List.mapIdx_eq_zipIdx_map,
      List.mapIdx_eq_zipIdx_map, List.map_map]
    simp only [Nat.zero_add]
    rfl
  | cond =>
    simp only [hkind] at h ⊢
    rw [splitFrom_eq hfuel, pure_bind]
    cases hvalue : value.isTruthy with
    | true =>
      simp only [hvalue, if_true, List.mem_singleton, forall_eq] at h ⊢
      rw [h, List.map_singleton, Rendered.join_cons, Rendered.join_nil, Rendered.append_empty]
    | false =>
      cases hother : (splitElse b.body).2 with
      | none => rfl
      | some other =>
        -- the other branch is an end of the body, so the subtraction that finds its start is exact
        obtain ⟨skipped, hbody⟩ := exists_append_of_splitElse_snd hother
        have hsize : b.body.size = skipped.size + other.size := by
          rw [hbody, Text.size_append]
        have hstart : offset + b.body.size - other.size = offset + (b.body.size - other.size) := by
          omega
        simp only [hvalue, hother, Bool.false_eq_true, if_false, Option.toList_some,
          List.map_singleton, List.mem_singleton, forall_eq] at h ⊢
        rw [Checked.minus_eq_pure (by omega), pure_bind, hstart, h, Rendered.join_cons,
          Rendered.join_nil, Rendered.append_empty]
  | notCond =>
    simp only [hkind] at h ⊢
    cases hvalue : value.isTruthy with
    | true => rfl
    | false =>
      simp only [hvalue, Bool.false_eq_true, if_false, List.mem_singleton, forall_eq] at h ⊢
      rw [h, List.map_singleton, Rendered.join_cons, Rendered.join_nil, Rendered.append_empty]

end Blocks

/-! ### Where the cursor stands -/

/-- Whether `part` is what lies ahead of the cursor in the section `whole`. Behind the cursor lie
the text that has been rendered, `done`, and the text with which the next slice begins,
`waiting`. -/
structure Section.Ahead (whole part : Section) (done waiting : Text) : Prop where
  text : whole.text = done ++ waiting ++ part.text
  offset : part.offset = whole.offset + Text.size (done ++ waiting)
  scope : part.scope = whole.scope

namespace Section.Ahead

theorem start (whole : Section) : whole.Ahead whole [] [] :=
  ⟨rfl, rfl, rfl⟩

variable {whole part : Section} {done waiting : Text} (hat : whole.Ahead part done waiting)
include hat

/-- The places of a tag in the section and in the source. -/
theorem start_token (s : TagSplit) :
    whole.offset + (s.token (Text.size (done ++ waiting))).start
      = (s.token part.offset).start := by
  rw [hat.offset]
  exact (Nat.add_assoc ..).symm

theorem stop_token (s : TagSplit) :
    whole.offset + (s.token (Text.size (done ++ waiting))).stop = (s.token part.offset).stop := by
  rw [Stencil.stop_token, Stencil.stop_token, hat.offset, Nat.add_assoc]

variable {s : TagSplit} (h : nextTag part.text = some s)
include h

/-- The cursor behind a tag that waits. -/
theorem wait : whole.Ahead (part.behind s) done (waiting ++ s.upTo) where
  text := by
    rw [hat.text, append_upTo_append_rest h]
    simp [Section.behind]
  offset := by
    rw [← List.append_assoc, Text.size_append, ← Stencil.stop_token, hat.stop_token]
    rfl
  scope := hat.scope

/-- The cursor behind a tag that has been rendered. -/
theorem pass : whole.Ahead (part.behind s) (done ++ waiting ++ s.upTo) [] where
  text := by
    rw [hat.text, append_upTo_append_rest h]
    simp [Section.behind]
  offset := by
    rw [List.append_nil, Text.size_append, ← Stencil.stop_token, hat.stop_token]
    rfl
  scope := hat.scope

/-- The cursor behind a block that has been rendered. The jump over the block, from behind its
opening tag, goes forwards to a place in the section. -/
theorem jump (kind : BlockKind) :
    ∃ jumped, whole.Ahead (part.behindBlock s (Block.scan kind s.rest)) jumped [] ∧
      Checked.minus whole.text.size (Block.scan kind s.rest).rest.size = pure jumped.size ∧
      Checked.seek whole.text (s.token (Text.size (done ++ waiting))).stop jumped.size
        = pure jumped.size := by
  obtain ⟨skipped, hskipped⟩ := Block.exists_append_rest kind s.rest
  have hrest : s.rest.size - (Block.scan kind s.rest).rest.size = skipped.size := by
    rw [congrArg Text.size hskipped, Text.size_append, Nat.add_sub_cancel]
  -- what is behind the block is an end of the section, since the scan cuts in its text
  have htext : whole.text
      = done ++ waiting ++ s.upTo ++ skipped ++ (Block.scan kind s.rest).rest := by
    rw [hat.text, append_upTo_append_rest h, List.append_assoc _ skipped, ← hskipped]
  have hsize := congrArg Text.size htext
  rw [Text.size_append _ (Block.scan kind s.rest).rest] at hsize
  have hjumped : Text.size (done ++ waiting ++ s.upTo ++ skipped)
      = (s.token (Text.size (done ++ waiting))).stop + skipped.size := by
    rw [Text.size_append, Text.size_append, Stencil.stop_token]
  refine ⟨done ++ waiting ++ s.upTo ++ skipped, ⟨?_, ?_, hat.scope⟩, ?_, ?_⟩
  · rw [htext, List.append_nil]
    rfl
  · rw [List.append_nil, hjumped, ← Nat.add_assoc, hat.stop_token, ← hrest]
    rfl
  · rw [Checked.minus_eq_pure (by omega), hsize, Nat.add_sub_cancel]
  · exact Checked.seek_eq_pure (by omega) (by omega)

end Section.Ahead

/-! ### One round -/

section Rounds

variable {partials : Registry} {depth fuel : Nat} {template : Template} {whole part : Section}
  {done waiting : Text} (hat : whole.Ahead part done waiting)
  (hlength : part.text.length + 1 < fuel) (out : Rendered)

/-- Whether the partial that a tag includes is rendered, with that fuel, as it is at the depth. -/
def RendersPartial (partials : Registry) (depth fuel : Nat) (tag : Tag) (scope : Scope) : Prop :=
  ∀ name u, tag = .inclusion name → partials.get? name = some u →
    renderTemplateFrom partials fuel u scope = pure (includedAt partials depth u scope)

include hat hlength

/-- In the last round there is no tag ahead of the cursor. -/
theorem renderFrom_of_nextTag_none (h : nextTag part.text = none) :
    renderFrom partials (fuel + 1) template whole (Text.size (done ++ waiting)) done.size out
      = pure (out ++ .ofText waiting ++ renderSection partials depth template part) := by
  have hlast : Checked.slice (done ++ waiting ++ part.text) done.size
      (Text.size (done ++ waiting ++ part.text)) = pure (waiting ++ part.text) := by
    rw [List.append_assoc, Checked.slice_behind]
  rw [renderFrom, hat.text, nextFrom_eq (by omega), h, renderSection_of_nextTag_none h]
  simp only [Option.map_none, hlast, pure_bind, Rendered.ofText_append, Rendered.append_assoc]

variable {s : TagSplit} (h : nextTag part.text = some s)
include h

/-- A closing tag is left to wait. -/
theorem renderFrom_closing {kind : BlockKind} (htag : s.tag = .closing kind) :
    renderFrom partials (fuel + 1) template whole (Text.size (done ++ waiting)) done.size out
      = renderFrom partials fuel template whole (s.token (Text.size (done ++ waiting))).stop
          done.size out := by
  rw [renderFrom, hat.text, nextFrom_eq (by omega), h]
  simp only [Option.map_some, pure_bind, Token.item, tag_token, htag]

/-- A tag that stands for itself is written behind the text that waits. -/
theorem renderFrom_plain (hsource : template.source.size < fuel)
    (hpartial : RendersPartial partials depth fuel s.tag whole.scope) {y : Fragment}
    (hy : (s.token part.offset).plain? = some y) :
    renderFrom partials (fuel + 1) template whole (Text.size (done ++ waiting)) done.size out
      = renderFrom partials fuel template whole (s.token (Text.size (done ++ waiting))).stop
          (s.token (Text.size (done ++ waiting))).stop
          (out ++ .ofText (waiting ++ s.before) ++
            y.eval partials (includedAt partials depth) template whole.scope) := by
  have hbefore := slice_before_tag h done waiting
  rw [← hat.text] at hbefore
  rw [renderFrom, hat.text, nextFrom_eq (by omega), h, ← hat.text]
  simp only [Option.map_some, pure_bind, Token.item, tag_token]
  unfold Token.plain? at hy
  split at hy
  · next path htag =>
    cases hy
    rw [tag_token] at htag
    simp only [htag, hbefore, pure_bind, Fragment.eval, Rendered.ofText_append,
      Rendered.append_assoc]
  · next htag =>
    cases hy
    rw [tag_token] at htag
    simp only [htag, hbefore, pure_bind, Fragment.eval, Rendered.ofText_append,
      Rendered.append_assoc]
  -- a partial is reported or rendered, where the cursor stands
  · next name htag =>
    cases hy
    rw [tag_token] at htag
    simp only [htag, hbefore, pure_bind, Fragment.eval, hat.start_token, hat.stop_token]
    cases hu : partials.get? name with
    | none => simp only [reportFrom_eq hsource, pure_bind]
    | some u =>
      have hrun := hpartial name u htag hu
      rw [renderTemplateFrom] at hrun
      simp only [hrun, pure_bind]
  · cases hy

/-- A block is rendered where it is opened, and the cursor jumps over it. -/
theorem renderFrom_opening (hsource : template.source.size < fuel) {kind : BlockKind} {path : Text}
    (htag : s.tag = .opening kind path)
    (hparts : ∀ x ∈ (Block.scan kind s.rest).sections (s.token part.offset).stop
        (whole.scope.lookup path) whole.scope,
      renderFrom partials fuel template x 0 0 ∅ = pure (renderSection partials depth template x))
    {jumped : Text}
    (hminus : Checked.minus whole.text.size (Block.scan kind s.rest).rest.size = pure jumped.size)
    (hseek : Checked.seek whole.text (s.token (Text.size (done ++ waiting))).stop jumped.size
      = pure jumped.size) :
    renderFrom partials (fuel + 1) template whole (Text.size (done ++ waiting)) done.size out
      = renderFrom partials fuel template whole jumped.size jumped.size
          (out ++ .ofText (waiting ++ s.before) ++
            .join ((Block.scan kind s.rest).fault?.toList.map fun fault =>
              .ofDiagnostic (template.diagnostic fault (s.token part.offset).start
                (s.token part.offset).stop)) ++
            .join (((Block.scan kind s.rest).sections (s.token part.offset).stop
              (whole.scope.lookup path) whole.scope).map
                (renderSection partials depth template))) := by
  have hlt := rest_lt_of_nextTag h
  have hbody := Block.length_body_le kind s.rest
  have hbefore := slice_before_tag h done waiting
  have hcontent := slice_behind_tag h (done ++ waiting)
  rw [← hat.text] at hbefore hcontent
  -- what is scanned is shorter than the section, so the fuel is enough for it
  have hscan : scanFrom kind s.rest fuel 1 0 = pure (Block.scan kind s.rest) :=
    scanFrom_eq kind (by omega)
  have hblock : (Block.scan kind s.rest).body.length + 1 < fuel := by omega
  rw [renderFrom, hat.text, nextFrom_eq (by omega), h, ← hat.text]
  simp only [Option.map_some, pure_bind, Token.item, tag_token, htag, hbefore, hcontent, hscan,
    checkFrom_eq hsource, hat.start_token, hat.stop_token, renderBlockFrom_eq hblock hparts,
    hminus, hseek]

end Rounds

/-! ### Sections -/

section Sections

variable {partials : Registry} {depth : Nat} {template : Template}

/-- Whether the partials that some text includes are rendered as they are at the given depth. -/
def RendersIncluded (partials : Registry) (depth : Nat) (text : Text) : Prop :=
  ∀ name, .inclusion name ∈ tagsIn text → ∀ u, partials.get? name = some u → ∀ scope,
    Checked.EndsIn (fun fuel => renderTemplateFrom partials fuel u scope)
      (includedAt partials depth u scope)

theorem RendersIncluded.mono {t u : Text} (h : RendersIncluded partials depth t)
    (hsub : tagsIn u ⊆ tagsIn t) : RendersIncluded partials depth u :=
  fun name hname => h name (hsub hname)

/-- Enough fuel for the partial that a tag includes, if it includes any. -/
theorem RendersIncluded.exists_enough {text : Text} (h : RendersIncluded partials depth text)
    {tag : Tag} (htag : tag ∈ tagsIn text) (scope : Scope) :
    ∃ enough, ∀ fuel, enough ≤ fuel → RendersPartial partials depth fuel tag scope := by
  cases tag with
  | inclusion name =>
    -- a partial that is missing needs no fuel
    cases hu : partials.get? name with
    | none =>
      refine ⟨0, fun fuel _ name' u hname hu' => ?_⟩
      cases hname
      rw [hu] at hu'
      cases hu'
    | some u =>
      obtain ⟨enough, henough⟩ := h name htag u hu scope
      refine ⟨enough, fun fuel hfuel name' u' hname hu' => ?_⟩
      cases hname
      obtain rfl := Option.some.inj (hu.symm.trans hu')
      exact henough fuel hfuel
  | _ => exact ⟨0, fun _ _ _ _ hname => nomatch hname⟩

/-- **The renderer goes on from its cursor** with what lies ahead of it. -/
theorem renderFrom_of_ahead {whole part : Section} {done waiting : Text}
    (hat : whole.Ahead part done waiting) (hincluded : RendersIncluded partials depth part.text)
    (out : Rendered) :
    Checked.EndsIn
      (fun fuel =>
        renderFrom partials fuel template whole (Text.size (done ++ waiting)) done.size out)
      (out ++ .ofText waiting ++ renderSection partials depth template part) := by
  -- by length, as both renderers go on: with the sections of a block and with what is left behind
  induction hn : part.text.length using Nat.strongRecOn
    generalizing whole part done waiting out with
  | ind n ih =>
    subst hn
    -- it is enough to look at one round, with fuel for the search and for the diagnostics in it
    suffices hround : ∃ enough, ∀ fuel, enough ≤ fuel → part.text.length + 1 < fuel →
        template.source.size < fuel →
        renderFrom partials (fuel + 1) template whole (Text.size (done ++ waiting)) done.size out
          = pure (out ++ .ofText waiting ++ renderSection partials depth template part) by
      obtain ⟨enough, henough⟩ := hround
      refine ⟨enough + part.text.length + template.source.size + 3, fun fuel hfuel => ?_⟩
      obtain ⟨fuel, rfl⟩ : ∃ n, fuel = n + 1 := ⟨fuel - 1, by omega⟩
      exact henough fuel (by omega) (by omega) (by omega)
    cases h : nextTag part.text with
    | none => exact ⟨0, fun _ _ hlength _ => renderFrom_of_nextTag_none hat hlength out h⟩
    | some s =>
      have hlt := rest_lt_of_nextTag h
      have htags := tagsIn_behind_subset h
      have hstop : (s.token (Text.size (done ++ waiting))).stop
          = Text.size (done ++ waiting ++ s.upTo) := by
        rw [Stencil.stop_token, Text.size_append _ s.upTo]
      -- a tag that stands for itself is passed, and behind it nothing waits
      have plain {y : Fragment} (hy : (s.token part.offset).plain? = some y) :
          ∃ enough, ∀ fuel, enough ≤ fuel → part.text.length + 1 < fuel →
            template.source.size < fuel →
            renderFrom partials (fuel + 1) template whole (Text.size (done ++ waiting))
                done.size out
              = pure (out ++ .ofText waiting ++ renderSection partials depth template part) := by
        obtain ⟨enough, henough⟩ := ih s.rest.length hlt (hat.pass h) (hincluded.mono htags)
          (out ++ .ofText (waiting ++ s.before) ++
            y.eval partials (includedAt partials depth) template whole.scope) rfl
        obtain ⟨enough', henough'⟩ := hincluded.exists_enough (tag_mem_tagsIn h) whole.scope
        refine ⟨max enough enough', fun fuel hfuel hlength hsource => ?_⟩
        have hrest := henough fuel (by omega)
        have hpartial := henough' fuel (by omega)
        simp only [List.append_nil, ← hstop] at hrest
        rw [renderFrom_plain hat hlength out h hsource hpartial hy, hrest,
          renderSection_plain h hy, hat.scope, Rendered.ofText_nil, Rendered.append_empty,
          Rendered.ofText_append]
        simp only [Rendered.append_assoc]
      cases htag : s.tag with
      | value path =>
        exact plain (y := .value path) (by rw [Token.plain?, tag_token, htag])
      | alternative =>
        exact plain (y := .alternative) (by rw [Token.plain?, tag_token, htag])
      | inclusion name =>
        exact plain (y := .inclusion name _ _) (by rw [Token.plain?, tag_token, htag])
      | closing kind =>
        obtain ⟨enough, henough⟩ := ih s.rest.length hlt (hat.wait h) (hincluded.mono htags) out rfl
        refine ⟨enough, fun fuel hfuel hlength _ => ?_⟩
        have hrest := henough fuel hfuel
        simp only [← List.append_assoc, ← hstop] at hrest
        rw [renderFrom_closing hat hlength out h htag, hrest, renderSection_closing h htag,
          TagSplit.upTo, Rendered.ofText_append, Rendered.ofText_append]
        simp only [Rendered.append_assoc]
      | opening kind path =>
        obtain ⟨jumped, hjump, hminus, hseek⟩ := hat.jump h kind
        have hbody := Block.length_body_le kind s.rest
        have hleft := Block.length_rest_le kind s.rest
        -- every section of the block has a render of its own, which begins at its start
        have hends : ∀ x ∈ (Block.scan kind s.rest).sections (s.token part.offset).stop
            (whole.scope.lookup path) whole.scope,
            Checked.EndsIn (fun fuel => renderFrom partials fuel template x 0 0 ∅)
              (renderSection partials depth template x) := by
          intro x hx
          have hshorter := Block.length_of_mem_sections hx
          have hwithin : tagsIn x.text ⊆ tagsIn part.text := fun tag htag =>
            htags (tagsIn_body_subset kind s.rest (tagsIn_sections_subset hx htag))
          exact ih x.text.length (by omega) (.start x) (hincluded.mono hwithin) ∅ rfl
        obtain ⟨enough, henough⟩ := Checked.exists_enough_of_forall_mem hends
        have hbehind : tagsIn (Block.scan kind s.rest).rest ⊆ tagsIn part.text := fun tag htag =>
          htags (tagsIn_rest_subset kind s.rest htag)
        obtain ⟨enough', henough'⟩ := ih (Block.scan kind s.rest).rest.length (by omega) hjump
          (hincluded.mono hbehind)
          (out ++ .ofText (waiting ++ s.before) ++
            .join ((Block.scan kind s.rest).fault?.toList.map fun fault =>
              .ofDiagnostic (template.diagnostic fault (s.token part.offset).start
                (s.token part.offset).stop)) ++
            .join (((Block.scan kind s.rest).sections (s.token part.offset).stop
              (whole.scope.lookup path) whole.scope).map
                (renderSection partials depth template))) rfl
        refine ⟨max enough enough', fun fuel hfuel hlength hsource => ?_⟩
        have hparts := henough fuel (by omega)
        have hrest := henough' fuel (by omega)
        simp only [List.append_nil] at hrest
        rw [renderFrom_opening hat hlength out h hsource htag hparts hminus hseek, hrest,
          renderSection_opening h htag, hat.scope, Rendered.ofText_nil, Rendered.append_empty,
          Rendered.ofText_append]
        simp only [Rendered.append_assoc]

end Sections

/-! ### Whole renders -/

section Whole

variable {partials : Registry} {t : Template} (hacyclic : partials.AcyclicFrom t)
include hacyclic

/-- Partials that a template needs are rendered as deep as their rank says. -/
theorem renderTemplateFrom_of_needs {name : Text} (hneeds : partials.Needs t name) {u : Template}
    (hu : partials.get? name = some u) {depth : Nat} (hdepth : partials.rank name < depth)
    (scope : Scope) :
    Checked.EndsIn (fun fuel => renderTemplateFrom partials fuel u scope)
      (includedAt partials depth u scope) := by
  induction depth generalizing name u scope with
  | zero => omega
  | succ depth ih =>
    -- what the partial includes has a lower rank
    have hincluded : RendersIncluded partials depth u.source := by
      intro other hother v hv scope
      have hincludes : u.Includes other := Template.includes_iff.2 hother
      have hrank := Registry.rank_lt_of_needs hacyclic hneeds hu hincludes hv
      exact ih (hneeds.trans hu hincludes) hv (by omega) scope
    exact renderFrom_of_ahead (.start ⟨u.source, 0, scope⟩) hincluded ∅

/-- **A render ends without a mishap** if it does not reach a cycle of inclusions: with all fuel
from some amount on, no operation in it fails, and it gives what the template is rendered to. -/
theorem run_renderTemplateFrom (scope : Scope) :
    ∃ enough, ∀ fuel, enough ≤ fuel →
      (renderTemplateFrom partials fuel t scope).run
        = some (.ok (renderTemplate partials t scope)) := by
  have hbound := partials.size_le_inclusionBound scope
  have hincluded : RendersIncluded partials (inclusionBound partials scope) t.source := by
    intro name hname u hu scope'
    have hneeds : partials.Needs t name :=
      Registry.needs_of_includes (Template.includes_iff.2 hname)
    have hrank := Registry.rank_lt_size_of_needs hacyclic hneeds hu
    exact renderTemplateFrom_of_needs hacyclic hneeds hu (by omega) scope'
  exact renderFrom_of_ahead (.start ⟨t.source, 0, scope⟩) hincluded ∅

end Whole

/-- The page with a title ends beside a partial without end, which it does not include. -/
theorem run_renderTemplateFrom_titledPage :
    (rowsAndCells.insert endless).AcyclicFrom titledPage ∧
      ∃ enough, ∀ fuel, enough ≤ fuel →
        (renderTemplateFrom (rowsAndCells.insert endless) fuel titledPage (.root ∅ ∅)).run
          = some (.ok (renderTemplate (rowsAndCells.insert endless) titledPage (.root ∅ ∅))) := by
  have hacyclic : (rowsAndCells.insert endless).AcyclicFrom titledPage :=
    (acyclic_rowsAndCells.acyclicFrom titledPage).of_agree sameSource_endless
  exact ⟨hacyclic, run_renderTemplateFrom hacyclic (.root ∅ ∅)⟩

end Stencil
