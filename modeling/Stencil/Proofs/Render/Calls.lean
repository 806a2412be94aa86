import Stencil.Proofs.Render.Diagnostics
import Stencil.Proofs.Tag.OpenEnds

/-!
# The calls of the renderer

The renderer calls itself: on what is left behind a tag, on the sections of a block, and on a
partial one level further in. Whatever it does, it does in one of these calls, with the tag that
comes first in the section of the call.

* `Call.result_eq` — a call gives what it writes and says itself, and then what the calls give that
  it makes (`Call.next`);
* `Call.mem_diagnostics_result_iff` — so a render reports what is to be said in the calls that it
  comes to (`Call.Reaches`), and nothing else;
* `Call.onSlice_next`, `Call.onSlice_of_reaches` — each call works on a slice of the source of its
  template;
* `Call.block_eq_of_reaches` — so the block that it finds in its slice, at whatever depth and in
  whatever round or branch, is the one that stands in the source.
-/

namespace Stencil

/-! ### Calls -/

/-- What is at fault with a tag behind which a text stands, if anything. -/
def Tag.fault? (partials : Registry) (behind : Text) : Tag → Option Fault
  | .inclusion name =>
    match partials.get? name with
    | none => some (.missingPartial name)
    | some _ => none
  | .opening kind _ => (Block.scan kind behind).fault?
  | _ => none

/-- A **call of the renderer**: on a section of a template, where partials may still be nested
`depth` deep. -/
structure Call where
  depth : Nat
  template : Template
  part : Section

namespace Call

/-- The call on a whole template. -/
def whole (depth : Nat) (t : Template) (scope : Scope) : Call :=
  ⟨depth, t, ⟨t.source, 0, scope⟩⟩

/-- What a call gives. -/
def result (partials : Registry) (c : Call) : Rendered :=
  renderSection partials c.depth c.template c.part

/-- The call on another section of the same template. -/
def on (c : Call) (part : Section) : Call :=
  { c with part }

/-- What the first tag of a call stands for, if that is a text. -/
def tagText (c : Call) (s : TagSplit) : Text :=
  match s.tag with
  | .value path => (c.part.scope.lookup path).printed
  | .alternative => (c.part.scope.lookup Tag.elseWord).printed
  | .closing _ => s.lexeme
  | _ => []

/-- What a call writes itself: the text up to its first tag, and what this stands for. -/
def writes (c : Call) : Text :=
  match nextTag c.part.text with
  | none => c.part.text
  | some s => s.before ++ c.tagText s

/-- What a call has to say itself: what is at fault with its first tag. -/
def remarks (partials : Registry) (c : Call) : List Diagnostic :=
  match nextTag c.part.text with
  | none => []
  | some s =>
    let k := s.token c.part.offset
    (s.tag.fault? partials s.rest).toList.map (c.template.diagnostic · k.start k.stop)

/-- The call on the partial of that name, if there is one and the depth allows for it. -/
def onPartial? (partials : Registry) (c : Call) (name : Text) : Option Call :=
  match c.depth with
  | 0 => none
  | depth + 1 => (partials.get? name).map (whole depth · c.part.scope)

/-- The calls that a call makes, in order, if its section begins with the tag of `s`. -/
def nextAt (partials : Registry) (c : Call) (s : TagSplit) : List Call :=
  match s.tag with
  | .inclusion name => (c.onPartial? partials name).toList ++ [c.on (c.part.behind s)]
  | .opening kind path =>
    let b := Block.scan kind s.rest
    let stop := (s.token c.part.offset).stop
    (b.sections stop (c.part.scope.lookup path) c.part.scope).map c.on ++
      [c.on (c.part.behindBlock s b)]
  | _ => [c.on (c.part.behind s)]

/-- **The calls that a call makes**, in order. -/
def next (partials : Registry) (c : Call) : List Call :=
  match nextTag c.part.text with
  | none => []
  | some s => c.nextAt partials s

/-- Whether a call **comes to** another one, by way of the calls in between. -/
def Reaches (partials : Registry) : Call → Call → Prop :=
  Relation.ReflTransGen fun c d => d ∈ c.next partials

/-! ### What calls give -/

section Reports

variable {partials : Registry} {c d : Call} {s : TagSplit}

theorem next_of_nextTag_none (h : nextTag c.part.text = none) : c.next partials = [] := by
  rw [next, h]

theorem next_of_nextTag (h : nextTag c.part.text = some s) :
    c.next partials = c.nextAt partials s := by
  rw [next, h]

theorem writes_of_nextTag_none (h : nextTag c.part.text = none) : c.writes = c.part.text := by
  rw [writes, h]

theorem writes_of_nextTag (h : nextTag c.part.text = some s) :
    c.writes = s.before ++ c.tagText s := by
  rw [writes, h]

theorem remarks_of_nextTag_none (h : nextTag c.part.text = none) : c.remarks partials = [] := by
  rw [remarks, h]

theorem remarks_of_nextTag (h : nextTag c.part.text = some s) :
    c.remarks partials = (s.tag.fault? partials s.rest).toList.map
      (c.template.diagnostic · (s.token c.part.offset).start (s.token c.part.offset).stop) := by
  rw [remarks, h]

theorem onPartial?_eq_none {name : Text} (h : partials.get? name = none) :
    c.onPartial? partials name = none := by
  unfold onPartial?
  cases c.depth with
  | zero => rfl
  | succ depth => simp [h]

theorem join_onPartial? {name : Text} {u : Template} (h : partials.get? name = some u) :
    .join ((c.onPartial? partials name).toList.map (result partials))
      = includedAt partials c.depth u c.part.scope := by
  unfold onPartial?
  cases c.depth with
  | zero => rfl
  | succ depth =>
    simp only [h, Option.map_some, Option.toList_some, List.map_singleton]
    exact Rendered.append_empty _

/-- **What a call gives** is what it writes and says itself, and then what the calls give that it
makes. -/
theorem result_eq (partials : Registry) (c : Call) :
    c.result partials
      = ⟨c.writes, c.remarks partials⟩ ++ .join ((c.next partials).map (result partials)) := by
  cases h : nextTag c.part.text with
  | none =>
    rw [next_of_nextTag_none h, remarks_of_nextTag_none h, writes_of_nextTag_none h, result,
      renderSection_of_nextTag_none h]
    exact (Rendered.append_empty _).symm
  | some s =>
    rw [remarks_of_nextTag h, next_of_nextTag h, writes_of_nextTag h, nextAt, tagText]
    -- tags that are no block tags stand for something, and what is behind them follows
    have plain {y : Fragment} (hy : (s.token c.part.offset).plain? = some y) :
        c.result partials
          = .ofText s.before ++ y.eval partials (includedAt partials c.depth) c.template
              c.part.scope ++ (c.on (c.part.behind s)).result partials :=
      renderSection_plain h hy
    have hlast (r : Rendered) : .join [r] = r := Rendered.append_empty r
    cases htag : s.tag with
    | value path =>
      rw [plain (y := .value path) (by rw [Token.plain?, tag_token, htag]), Fragment.eval,
        ← Rendered.ofText_append, List.map_singleton, hlast]
      rfl
    | alternative =>
      rw [plain (y := .alternative) (by rw [Token.plain?, tag_token, htag]), Fragment.eval,
        ← Rendered.ofText_append, List.map_singleton, hlast]
      rfl
    | closing kind =>
      rw [result, renderSection_closing h htag, ← Rendered.ofText_append, List.map_singleton, hlast]
      rfl
    | inclusion name =>
      have hplain : (s.token c.part.offset).plain?
          = some (.inclusion name (s.token c.part.offset).start (s.token c.part.offset).stop) := by
        rw [Token.plain?, tag_token, htag]
      rw [plain hplain, Fragment.eval, Tag.fault?, List.map_append, Rendered.join_append,
        List.map_singleton, hlast, ← Rendered.append_assoc, List.append_nil]
      congr 1
      cases hu : partials.get? name with
      | none =>
        rw [onPartial?_eq_none hu, Option.toList_none, List.map_nil, Rendered.join_nil,
          Rendered.append_empty]
        exact Rendered.ofText_append_ofDiagnostic s.before _
      | some u =>
        rw [join_onPartial? hu]
        rfl
    | opening kind path =>
      rw [result, renderSection_opening h htag, Tag.fault?, List.map_append, Rendered.join_append,
        List.map_singleton, hlast, ← Rendered.append_assoc, List.map_map, List.append_nil]
      congr 2
      cases hfault : (Block.scan kind s.rest).fault? with
      | none => exact Rendered.append_empty _
      | some fault =>
        rw [Option.toList_some, List.map_singleton, hlast, Rendered.ofText_append_ofDiagnostic,
          List.map_singleton]

/-- So it reports what there is to say about its first tag, and then what those calls report. -/
theorem diagnostics_result (partials : Registry) (c : Call) :
    (c.result partials).diagnostics
      = c.remarks partials ++ (c.next partials).flatMap fun d =>
          (d.result partials).diagnostics := by
  rw [result_eq, Rendered.diagnostics_append, Rendered.diagnostics_join, List.flatMap_map]

end Reports

/-! ### From call to call -/

section Runs

variable {partials : Registry} {c d : Call}

theorem exists_of_onPartial? {name : Text} (h : c.onPartial? partials name = some d) :
    ∃ depth u, c.depth = depth + 1 ∧ partials.get? name = some u ∧
      d = whole depth u c.part.scope := by
  unfold onPartial? at h
  cases hdepth : c.depth with
  | zero =>
    rw [hdepth] at h
    cases h
  | succ depth =>
    rw [hdepth] at h
    obtain ⟨u, hu, rfl⟩ := Option.map_eq_some_iff.1 h
    exact ⟨depth, u, rfl, hu, rfl⟩

/-- **What a call can go on to**: what is left behind its first tag, if that opens no block; the
partial that the tag includes; a section of the block that it opens; what is left behind the
block. -/
theorem mem_next (h : d ∈ c.next partials) : ∃ s, nextTag c.part.text = some s ∧
    ((s.tag.isOpening = false ∧ d = c.on (c.part.behind s)) ∨
      (∃ name, s.tag = .inclusion name ∧ c.onPartial? partials name = some d) ∨
      ∃ kind path, s.tag = .opening kind path ∧
        let b := Block.scan kind s.rest
        let stop := (s.token c.part.offset).stop
        (∃ x ∈ b.sections stop (c.part.scope.lookup path) c.part.scope, d = c.on x) ∨
          d = c.on (c.part.behindBlock s b)) := by
  cases hs : nextTag c.part.text with
  | none =>
    rw [next_of_nextTag_none hs] at h
    cases h
  | some s =>
    rw [next_of_nextTag hs, nextAt] at h
    refine ⟨s, rfl, ?_⟩
    cases htag : s.tag with
    -- only inclusions and opening tags lead to more than what is left behind the tag
    | inclusion name =>
      simp only [htag, List.mem_append, Option.mem_toList, List.mem_singleton] at h
      rcases h with h | h
      · exact .inr (.inl ⟨name, rfl, h⟩)
      · exact .inl ⟨rfl, h⟩
    | opening kind path =>
      simp only [htag, List.mem_append, List.mem_map, List.mem_singleton] at h
      refine .inr (.inr ⟨kind, path, rfl, ?_⟩)
      rcases h with ⟨x, hx, rfl⟩ | h
      · exact .inl ⟨x, hx, rfl⟩
      · exact .inr h
    | _ =>
      simp only [htag, List.mem_singleton] at h
      exact .inl ⟨rfl, h⟩

/-- A call goes on to calls on less text, or with less depth left. -/
theorem lt_of_mem_next (h : d ∈ c.next partials) :
    Prod.Lex (· < ·) (· < ·) (d.depth, d.part.text.length) (c.depth, c.part.text.length) := by
  obtain ⟨s, hs, h⟩ := mem_next h
  have hrest := rest_lt_of_nextTag hs
  rcases h with ⟨-, rfl⟩ | ⟨name, -, h⟩ | ⟨kind, path, -, ⟨x, hx, rfl⟩ | rfl⟩
  · exact .right _ hrest
  · obtain ⟨depth, u, hdepth, -, rfl⟩ := exists_of_onPartial? h
    refine .left _ _ ?_
    rw [hdepth]
    exact Nat.lt_succ_self depth
  · have hbody := Block.length_of_mem_sections hx
    have hscan := Block.length_body_le kind s.rest
    exact .right _ (Nat.lt_of_le_of_lt (Nat.le_trans hbody hscan) hrest)
  · exact .right _ (Nat.lt_of_le_of_lt (Block.length_rest_le kind s.rest) hrest)

/-- So going from call to call ends. -/
theorem wellFounded_next (partials : Registry) :
    WellFounded fun d c : Call => d ∈ c.next partials :=
  Subrelation.wf lt_of_mem_next
    (InvImage.wf (fun c : Call => (c.depth, c.part.text.length)) WellFoundedRelation.wf)

/-- **What a render reports** is what is to be said in the calls that it comes to. -/
theorem mem_diagnostics_result_iff {x : Diagnostic} :
    x ∈ (c.result partials).diagnostics ↔ ∃ d, c.Reaches partials d ∧ x ∈ d.remarks partials := by
  constructor
  -- what is said is said in this call, or in one that it makes
  · intro hx
    induction c using (wellFounded_next partials).induction with
    | _ c ih =>
      rw [diagnostics_result, List.mem_append, List.mem_flatMap] at hx
      rcases hx with hx | ⟨d, hd, hx⟩
      · exact ⟨c, .refl, hx⟩
      · obtain ⟨e, he, hx⟩ := ih d hd hx
        exact ⟨e, .head hd he, hx⟩
  · rintro ⟨d, hd, hx⟩
    induction hd using Relation.ReflTransGen.head_induction_on with
    | refl =>
      rw [diagnostics_result]
      exact List.mem_append_left _ hx
    | head hnext _ ih =>
      rw [diagnostics_result]
      exact List.mem_append_right _ (List.mem_flatMap.2 ⟨_, hnext, ih⟩)

end Runs

/-! ### Slices -/

/-- Whether a call works on a slice of the source of its template. -/
def OnSlice (c : Call) : Prop :=
  SliceOf c.part.offset c.part.text 0 c.template.source

theorem onSlice_whole (depth : Nat) (t : Template) (scope : Scope) :
    (whole depth t scope).OnSlice :=
  SliceOf.refl 0 t.source

end Call

/-- The sections of a block are slices of its body. -/
theorem SliceOf.of_mem_sections {b : Block} {offset : Nat} {value : Value} {scope : Scope}
    {x : Section} (h : x ∈ b.sections offset value scope) :
    SliceOf x.offset x.text offset b.body := by
  rcases Block.mem_sections h with ⟨htext, hoffset⟩ | ⟨htext, hoffset⟩ | ⟨hother, hoffset⟩
  · rw [htext, hoffset]
    exact refl offset b.body
  · rw [htext, hoffset]
    exact splitElse_fst offset b.body
  · rw [hoffset]
    exact splitElse_snd offset hother

/-- A tag that opens no block leaves none open. -/
theorem Tag.depthAfter_zero {tag : Tag} (h : tag.isOpening = false) : tag.depthAfter 0 = 0 := by
  cases tag with
  | opening kind path => cases h
  | _ => rfl

/-- A diagnostic of a token tells the fault, the source and the token. -/
theorem Template.eq_of_diagnostic_eq {t u : Template} {k l : Token} {fault fault' : Fault}
    (hk : k ∈ tokens 0 t.source) (hl : l ∈ tokens 0 u.source)
    (h : t.diagnostic fault k.start k.stop = u.diagnostic fault' l.start l.stop) :
    fault = fault' ∧ t.source = u.source ∧ k = l := by
  obtain ⟨hfault, -, hspan, hsource⟩ := Diagnostic.mk.inj h
  have hstart : k.start = l.start := by
    calc k.start
        = (Span.locate t.source k.start k.stop).start := (tagAt_of_mem_tokens hk).locate_eq.1.symm
      _ = (Span.locate u.source l.start l.stop).start := congrArg Span.start hspan
      _ = l.start := (tagAt_of_mem_tokens hl).locate_eq.1
  rw [hsource] at hk
  exact ⟨hfault, hsource, (inOrder_tokens 0 u.source).eq_of_start_eq hk hl hstart⟩

namespace Call

variable {partials : Registry} {c d : Call}

/-- **A call on a slice** goes on to calls on slices. -/
theorem onSlice_next (hc : c.OnSlice) (h : d ∈ c.next partials) : d.OnSlice := by
  obtain ⟨s, hs, h⟩ := mem_next h
  rcases h with ⟨htag, rfl⟩ | ⟨name, -, h⟩ | ⟨kind, path, htag, ⟨x, hx, rfl⟩ | rfl⟩
  · exact (SliceOf.behind hs c.part.offset (Tag.depthAfter_zero htag)).trans hc
  · -- a partial is begun anew
    obtain ⟨depth, u, -, -, rfl⟩ := exists_of_onPartial? h
    exact onSlice_whole depth u c.part.scope
  · exact (SliceOf.of_mem_sections hx).trans ((SliceOf.body hs c.part.offset htag).trans hc)
  · exact (SliceOf.behindBlock hs c.part.offset htag).trans hc

/-- So all calls of a render are on slices. -/
theorem onSlice_of_reaches (hc : c.OnSlice) (h : c.Reaches partials d) : d.OnSlice := by
  induction h with
  | refl => exact hc
  | tail _ hnext ih => exact onSlice_next ih hnext

/-- The first tag of a slice is a tag of the source. -/
theorem OnSlice.token_mem (hc : c.OnSlice) {s : TagSplit} (hs : nextTag c.part.text = some s) :
    s.token c.part.offset ∈ tokens 0 c.template.source := by
  refine hc.tokens_subset ?_
  rw [tokens_of_nextTag hs]
  exact List.mem_cons_self

/-- What is at fault with the first tag of a slice is told from the source. -/
theorem OnSlice.fault?_eq (hc : c.OnSlice) {s : TagSplit} (hs : nextTag c.part.text = some s) :
    s.tag.fault? partials s.rest = s.tag.fault? partials
      (c.template.source.dropBytes (s.token c.part.offset).stop) := by
  cases htag : s.tag with
  | opening kind path =>
    have hclose := (SliceOf.scan_eq hc hs htag).2
    rw [Tag.fault?, Tag.fault?, Block.fault?, Block.fault?, hclose, Block.kind_scan,
      Block.kind_scan]
  | _ => rfl

/-! ### What is said about a tag -/

/-- What a call on a slice has to say is about a token of the source. -/
theorem exists_of_mem_remarks (hc : c.OnSlice) {x : Diagnostic} (h : x ∈ c.remarks partials) :
    ∃ k ∈ tokens 0 c.template.source, ∃ fault,
      k.tag.fault? partials (c.template.source.dropBytes k.stop) = some fault ∧
        x = c.template.diagnostic fault k.start k.stop := by
  cases hs : nextTag c.part.text with
  | none =>
    rw [remarks_of_nextTag_none hs] at h
    cases h
  | some s =>
    rw [remarks_of_nextTag hs, hc.fault?_eq hs] at h
    obtain ⟨fault, hfault, rfl⟩ := List.mem_map.1 h
    exact ⟨_, hc.token_mem hs, fault, Option.mem_toList.1 hfault, rfl⟩

/-- **A render that comes to a tag** says of it what the source does, and nothing else. -/
theorem mem_diagnostics_result_iff_of_reaches (hc : c.OnSlice) (h : c.Reaches partials d)
    {s : TagSplit} (hs : nextTag d.part.text = some s) (fault : Fault) :
    let k := s.token d.part.offset
    d.template.diagnostic fault k.start k.stop ∈ (c.result partials).diagnostics
      ↔ s.tag.fault? partials (d.template.source.dropBytes k.stop) = some fault := by
  intro k
  have hd := onSlice_of_reaches hc h
  rw [mem_diagnostics_result_iff]
  constructor
  · -- whatever call says it, it speaks of the same source and of the same token there
    rintro ⟨e, he, hx⟩
    have hslice := onSlice_of_reaches hc he
    obtain ⟨l, hl, fault', hfault, heq⟩ := exists_of_mem_remarks hslice hx
    obtain ⟨rfl, hsource, rfl⟩ := Template.eq_of_diagnostic_eq (hd.token_mem hs) hl heq
    rw [hsource]
    exact hfault
  · intro hfault
    refine ⟨d, h, ?_⟩
    rw [remarks_of_nextTag hs, hd.fault?_eq hs]
    exact List.mem_map.2 ⟨fault, Option.mem_toList.2 hfault, rfl⟩

/-- **A block is what the source makes it.** Wherever a render comes to the opening tag of a block,
this is a tag of the source of its template, and what the renderer takes for the block in the slice
that it works on has the body and the closing tag which it has in all of the source. So what the
render says about the block is told by the source and the place of the tag. -/
theorem block_eq_of_reaches {t : Template} {scope : Scope}
    (h : (whole (inclusionBound partials scope) t scope).Reaches partials c) {s : TagSplit}
    {kind : BlockKind} {path : Text} (hs : nextTag c.part.text = some s)
    (htag : s.tag = .opening kind path) :
    let k := s.token c.part.offset
    let behind := c.template.source.dropBytes k.stop
    k ∈ tokens 0 c.template.source ∧
      (Block.scan kind s.rest).body = (Block.scan kind behind).body ∧
      (Block.scan kind s.rest).close = (Block.scan kind behind).close ∧
      ∀ fault, c.template.diagnostic fault k.start k.stop
          ∈ (renderTemplate partials t scope).diagnostics
        ↔ (Block.scan kind behind).fault? = some fault := by
  intro k behind
  have hwhole := onSlice_whole (inclusionBound partials scope) t scope
  -- the call stands on a slice of its source, in which blocks end as in the source
  have hslice := onSlice_of_reaches hwhole h
  obtain ⟨hbody, hclose⟩ := SliceOf.scan_eq hslice hs htag
  refine ⟨hslice.token_mem hs, hbody, hclose, ?_⟩
  intro fault
  have hsaid := mem_diagnostics_result_iff_of_reaches hwhole h hs fault
  rw [htag] at hsaid
  exact hsaid

/-! ### A block in the branch of a round -/

/-- A page with a block in a branch in a round, which a tag of another kind closes. -/
def pageOfBranch : Template :=
  .ofSource "page".toList
    ("\x7b\x7b#each rows\x7d\x7d\x7b\x7b#if this\x7d\x7da\x7b\x7belse\x7d\x7d".toList
      ++ "\x7b\x7b#unless no\x7d\x7db\x7b\x7b/each\x7d\x7d\x7b\x7b/if\x7d\x7d".toList
      ++ "\x7b\x7b/each\x7d\x7d".toList)

/-- One row, for which the page takes the other branch. -/
def falseRow : Scope :=
  .root (.ofFields [("rows".toList, .list [.bool false])]) ∅

/-- The call on the page with that row. -/
def callOnPage : Call :=
  whole (inclusionBound ∅ falseRow) pageOfBranch falseRow

/-- The call on the body of the block of rows. -/
def callOnRow : Call :=
  callOnPage.on
    ⟨("\x7b\x7b#if this\x7d\x7da\x7b\x7belse\x7d\x7d".toList
      ++ "\x7b\x7b#unless no\x7d\x7db\x7b\x7b/each\x7d\x7d\x7b\x7b/if\x7d\x7d".toList), 14,
      .iteration falseRow (.bool false) 0 1⟩

/-- The call on the branch. -/
def callOnBranch : Call :=
  callOnPage.on
    ⟨"\x7b\x7b#unless no\x7d\x7db\x7b\x7b/each\x7d\x7d".toList, 35,
      .iteration falseRow (.bool false) 0 1⟩

theorem reaches_callOnBranch : callOnPage.Reaches ∅ callOnBranch := by
  have hrow : callOnPage.next ∅
      = [callOnRow, callOnPage.on ⟨[], 75, falseRow⟩] := by with_unfolding_all rfl
  have hbranch : callOnRow.next ∅
      = [callOnBranch, callOnPage.on ⟨[], 66, .iteration falseRow (.bool false) 0 1⟩] := by
    with_unfolding_all rfl
  refine .head (b := callOnRow) ?_ (.single ?_)
  · rw [hrow]
    exact List.mem_cons_self
  · rw [hbranch]
    exact List.mem_cons_self

/-- The tag in the branch, and what is left of the branch behind it. -/
def splitOfBranch : TagSplit :=
  ⟨[], .opening .notCond "no".toList, "\x7b\x7b#unless no\x7d\x7d".toList,
    "b\x7b\x7b/each\x7d\x7d".toList⟩

/-- In the branch, the block ends where it does in the source: at a tag that is meant to close the
block of rows. -/
theorem block_eq_of_reaches_pageOfBranch :
    let behind := pageOfBranch.source.dropBytes 49
    callOnPage.Reaches ∅ callOnBranch ∧ nextTag callOnBranch.part.text = some splitOfBranch ∧
      splitOfBranch.tag = .opening .notCond "no".toList ∧
      behind = "b\x7b\x7b/each\x7d\x7d\x7b\x7b/if\x7d\x7d\x7b\x7b/each\x7d\x7d".toList ∧
      (Block.scan .notCond splitOfBranch.rest).body = (Block.scan .notCond behind).body ∧
      ∀ fault, pageOfBranch.diagnostic fault 35 49
          ∈ (renderTemplate ∅ pageOfBranch falseRow).diagnostics
        ↔ (Block.scan .notCond behind).fault? = some fault := by
  obtain ⟨-, hbody, -, hsaid⟩ :=
    block_eq_of_reaches reaches_callOnBranch (s := splitOfBranch) rfl rfl
  exact ⟨reaches_callOnBranch, rfl, rfl, by with_unfolding_all rfl, hbody, hsaid⟩

end Call

end Stencil
