import Stencil.Proofs.Render.Reading

/-!
# What the renderer writes

The renderer goes through the text of a section tag by tag and scans ahead for the end of each block
that it comes to. The tree of the section says all of this at once, and what the tree writes is what
the renderer writes:

* `eval_block` — the sections to which a block leads write what the block writes as a fragment;
* `renderSection_eq_evalAll` — a section writes what its tree writes, if partials write what the
  renderer makes of them one level further in (`includedAt`).

The parts of a section are shorter than the section, so the proof is by its length. Their offsets
agree with the places of their tokens because the cuts of the text do (`Cut.Agrees`).
-/

namespace Stencil

/-- What a partial writes where partials may be nested `depth` deep. -/
def includedAt (partials : Registry) : Nat → Template → Scope → Rendered
  | 0, _, _ => ∅
  | depth + 1, t, scope => renderSection partials depth t ⟨t.source, 0, scope⟩

namespace Section

/-- The tree of a section. -/
def tree (part : Section) : List Fragment :=
  treeOf (tokens part.offset part.text) (lastText part.text)

/-- What is left of a section behind its first tag. -/
def behind (part : Section) (s : TagSplit) : Section :=
  ⟨s.rest, (s.token part.offset).stop, part.scope⟩

/-- What is left of a section behind the block that its first tag opens. -/
def behindBlock (part : Section) (s : TagSplit) (b : Block) : Section :=
  ⟨b.rest, (s.token part.offset).stop + (s.rest.size - b.rest.size), part.scope⟩

theorem tree_of_nextTag {part : Section} {s : TagSplit} (h : nextTag part.text = some s) :
    part.tree = treeOf (s.token part.offset :: tokens (s.token part.offset).stop s.rest)
      (lastText s.rest) := by
  rw [tree, tokens_of_nextTag h, lastText_of_nextTag h]

theorem tree_of_nextTag_none {part : Section} (h : nextTag part.text = none) :
    part.tree = [.text part.text] := by
  rw [tree, tokens_of_nextTag_none h, lastText_of_nextTag_none h, treeOf_nil]

end Section

/-! ### The renderer, one tag at a time -/

section Steps

variable {partials : Registry} {depth : Nat} {template : Template} {part : Section} {s : TagSplit}

theorem renderSection_of_nextTag_none (h : nextTag part.text = none) :
    renderSection partials depth template part = .ofText part.text := by
  rw [renderSection]
  split
  · rfl
  · next s hs =>
    rw [h] at hs
    cases hs

theorem renderSection_closing {kind : BlockKind} (h : nextTag part.text = some s)
    (htag : s.tag = .closing kind) :
    renderSection partials depth template part
      = .ofText s.before ++ .ofText s.lexeme ++
        renderSection partials depth template (part.behind s) := by
  rw [renderSection]
  split
  · next hn =>
    rw [h] at hn
    cases hn
  · next s' hs =>
    obtain rfl := Option.some.inj (h.symm.trans hs)
    simp only [htag]
    rfl

theorem renderSection_plain {y : Fragment} (h : nextTag part.text = some s)
    (hy : (s.token part.offset).plain? = some y) :
    renderSection partials depth template part
      = .ofText s.before ++ y.eval partials (includedAt partials depth) template part.scope ++
        renderSection partials depth template (part.behind s) := by
  unfold Token.plain? at hy
  rw [renderSection]
  split
  · next hn =>
    rw [h] at hn
    cases hn
  · next s' hs =>
    obtain rfl := Option.some.inj (h.symm.trans hs)
    -- the tags that stand for themselves: values, separators outside of blocks, and inclusions
    split at hy
    · next path htag =>
      cases hy
      simp only [tag_token] at htag
      simp only [htag, Fragment.eval]
      rfl
    · next htag =>
      cases hy
      simp only [tag_token] at htag
      simp only [htag, Fragment.eval]
      rfl
    · next name htag =>
      cases hy
      simp only [tag_token] at htag
      simp only [htag, Fragment.eval]
      cases partials.get? name with
      | none => rfl
      | some t =>
        -- at depth zero nothing is included, and neither does `includedAt` write anything there
        cases depth with
        | zero => rfl
        | succ depth => rfl
    · cases hy

theorem renderSection_opening {kind : BlockKind} {path : Text} (h : nextTag part.text = some s)
    (htag : s.tag = .opening kind path) :
    let k := s.token part.offset
    let b := Block.scan kind s.rest
    renderSection partials depth template part
      = .ofText s.before ++
        .join (b.fault?.toList.map fun fault =>
          .ofDiagnostic (template.diagnostic fault k.start k.stop)) ++
        .join ((b.sections k.stop (part.scope.lookup path) part.scope).map
          (renderSection partials depth template)) ++
        renderSection partials depth template (part.behindBlock s b) := by
  rw [renderSection]
  split
  · next hn =>
    rw [h] at hn
    cases hn
  · next s' hs =>
    obtain rfl := Option.some.inj (h.symm.trans hs)
    simp only [htag]
    -- the renderer carries along that its sections are shorter, and writes the same without that
    rw [List.attach_map_val]
    rfl

end Steps

/-! ### Blocks -/

section Blocks

variable (partials : Registry) (included : Template → Scope → Rendered) (template : Template)

/-- The fault of a block is told from the tag that closes it. -/
theorem Block.report_eq (b : Block) (path : Text) (start stop : Nat) :
    BlockHead.report ⟨path, start, stop, b.close⟩ template b.kind
      = .join (b.fault?.toList.map fun fault =>
          .ofDiagnostic (template.diagnostic fault start stop)) := by
  have hfault : b.kind.endFault? b.close = b.fault? := rfl
  rw [BlockHead.report, hfault]
  cases b.fault? with
  | none => rfl
  | some fault => exact (Rendered.append_empty _).symm

/-- The two branches of a body, as sections, have the trees into which the tree of the body falls;
the second one begins where the tokens say. -/
theorem splitAlternative_treeOf (body : Text) (offset : Nat) :
    splitAlternative (treeOf (tokens offset body) (lastText body))
      = (treeOf (tokens offset (splitElse body).1) (lastText (splitElse body).1),
         (splitElse body).2.map fun other =>
          treeOf (tokens (offset + (body.size - other.size)) other) (lastText other)) := by
  cases hcut : alternativeAt 0 (tokens offset body) with
  | none =>
    rw [splitElse_of_alternativeAt_none hcut, (branching ..).whole hcut]
    rfl
  | some x =>
    obtain ⟨c, hsplit, hc⟩ := splitElse_of_alternativeAt hcut
    -- the renderer counts back from the end of the body, the tokens from the beginning
    have hstop : offset + (body.size - c.after.size) = x.token.stop := hc.stop_eq
    rw [hsplit, (branching ..).parts x hcut, Option.map_some, hstop, hc.tokens_before,
      hc.lastText_before, hc.tokens_after, hc.lastText_after]

/-- **A block as a fragment** writes what is to be said about its end, and then what the sections
write to which it leads. -/
theorem eval_block (b : Block) (f : Frame) (hkind : f.kind = b.kind) (scope : Scope) :
    (f.block b.close (treeOf (tokens f.stop b.body) (lastText b.body))).eval
        partials included template scope
      = .join (b.fault?.toList.map fun fault =>
          .ofDiagnostic (template.diagnostic fault f.start f.stop)) ++
        .join ((b.sections f.stop (scope.lookup f.path) scope).map fun x =>
          evalAll partials included template x.tree x.scope) := by
  rw [← b.report_eq template f.path, Frame.block, Block.sections, hkind]
  -- what a block says about its end comes first in both, so only the sections are compared
  cases hb : b.kind with
  | each =>
    rw [Fragment.eval, List.mapIdx_eq_zipIdx_map, List.mapIdx_eq_zipIdx_map, List.map_map]
    rfl
  | cond =>
    simp only
    rw [Fragment.eval_cond, splitAlternative_treeOf]
    congr 1
    split
    · rw [List.map_singleton, Rendered.join_cons, Rendered.join_nil, Rendered.append_empty]
      rfl
    · cases (splitElse b.body).2 with
      | none => rfl
      | some other =>
        simp only [Option.map_some, Option.toList_some, List.map_singleton, Rendered.join_cons,
          Rendered.join_nil, Rendered.append_empty]
        rfl
  | notCond =>
    rw [Fragment.eval]
    congr 1
    split
    · rfl
    · rw [List.map_singleton, Rendered.join_cons, Rendered.join_nil, Rendered.append_empty]
      rfl

end Blocks

/-! ### Sections -/

section Sections

variable (partials : Registry) (included : Template → Scope → Rendered) (template : Template)

/-- What the tree of a section writes whose first tag opens a block: whether or not a tag closes the
block, the tree of what is left of the section follows the block. -/
theorem evalAll_tree_opening {part : Section} {s : TagSplit} {kind : BlockKind} {path : Text}
    (h : nextTag part.text = some s) (htag : s.tag = .opening kind path) :
    let k := s.token part.offset
    let b := Block.scan kind s.rest
    let f := Parser.opened [] kind path k
    evalAll partials included template part.tree part.scope
      = .ofText s.before ++
        (f.block b.close (treeOf (tokens f.stop b.body) (lastText b.body))).eval
          partials included template part.scope ++
        evalAll partials included template (part.behindBlock s b).tree part.scope := by
  intro k b f
  have hk : k.tag = .opening kind path := htag
  rw [Section.tree_of_nextTag h]
  cases hcut : closeAt 0 (tokens k.stop s.rest) with
  | none =>
    -- the block is all that is left, and behind it stands the empty text
    have hb : b = ⟨kind, s.rest, [], none⟩ := Block.scan_of_closeAt_none kind hcut
    have hbehind : (part.behindBlock s b).tree = [.text []] := by
      rw [hb]
      exact @Section.tree_of_nextTag_none ⟨[], _, part.scope⟩ (by rw [nextTag])
    rw [treeOf_unclosed hk hcut, evalAll_text_cons, hbehind, hb, evalAll_singleton, Fragment.eval]
    rfl
  | some x =>
    obtain ⟨close, hclose, hbclose, hc⟩ := Block.scan_of_closeAt kind hcut
    -- what is left begins where the closing tag ends
    have hstop : k.stop + (s.rest.size - b.rest.size) = x.token.stop := hc.stop_eq
    have hbehind : (part.behindBlock s b).tree = treeOf x.after (lastText s.rest) := by
      rw [Section.tree, Section.behindBlock]
      simp only
      rw [hstop, hc.tokens_after, hc.lastText_after]
    rw [treeOf_closed hk hcut hclose, evalAll_text_cons, hbehind, hbclose, hc.lastText_before]
    exact hc.tokens_before ▸ rfl

end Sections

/-- **A section writes what its tree writes.** -/
theorem renderSection_eq_evalAll (partials : Registry) (depth : Nat) (template : Template)
    (part : Section) :
    renderSection partials depth template part
      = evalAll partials (includedAt partials depth) template part.tree part.scope := by
  -- by length, as the renderer goes on: with the bodies of a block and with what is left behind it
  induction hn : part.text.length using Nat.strongRecOn generalizing part with
  | ind n ih =>
    subst hn
    have shorter : ∀ x : Section, x.text.length < part.text.length →
        renderSection partials depth template x
          = evalAll partials (includedAt partials depth) template x.tree x.scope :=
      fun x hx => ih x.text.length hx x rfl
    cases h : nextTag part.text with
    | none =>
      rw [renderSection_of_nextTag_none h, Section.tree_of_nextTag_none h, evalAll_singleton,
        Fragment.eval]
    | some s =>
      have hrest := rest_lt_of_nextTag h
      have plain {y : Fragment} (hy : (s.token part.offset).plain? = some y) :
          renderSection partials depth template part
            = evalAll partials (includedAt partials depth) template part.tree part.scope := by
        rw [renderSection_plain h hy, Section.tree_of_nextTag h, treeOf_plain hy,
          evalAll_text_cons, shorter (part.behind s) hrest]
        rfl
      cases htag : s.tag with
      | value path => exact plain (by rw [Token.plain?, tag_token, htag])
      | alternative => exact plain (by rw [Token.plain?, tag_token, htag])
      | inclusion name => exact plain (by rw [Token.plain?, tag_token, htag])
      | closing kind =>
        rw [renderSection_closing h htag, Section.tree_of_nextTag h, treeOf_closing htag,
          evalAll_text_cons, shorter (part.behind s) hrest, Fragment.eval]
        rfl
      | opening kind path =>
        have hparts : ((Block.scan kind s.rest).sections (s.token part.offset).stop
            (part.scope.lookup path) part.scope).map (renderSection partials depth template)
              = ((Block.scan kind s.rest).sections (s.token part.offset).stop
                  (part.scope.lookup path) part.scope).map fun x =>
                    evalAll partials (includedAt partials depth) template x.tree x.scope := by
          -- every section of a block is a part of its body
          refine List.map_congr_left fun x hx => shorter x ?_
          have hbody := Block.length_of_mem_sections hx
          have hscan := Block.length_body_le kind s.rest
          omega
        have hbehind := shorter (part.behindBlock s (Block.scan kind s.rest))
          (Nat.lt_of_le_of_lt (Block.length_rest_le kind s.rest) hrest)
        have hkind := (Block.kind_scan kind s.rest).symm
        rw [renderSection_opening h htag, evalAll_tree_opening partials _ template h htag,
          eval_block partials _ template _ _ hkind, hparts, hbehind, Rendered.append_assoc]
        rw [Rendered.append_assoc, Rendered.append_assoc, Rendered.append_assoc]
        rfl

/-- What a template writes where partials may be nested `depth` deep. -/
theorem includedAt_succ (partials : Registry) (depth : Nat) (t : Template) (scope : Scope) :
    includedAt partials (depth + 1) t scope
      = evalAll partials (includedAt partials depth) t t.tree scope :=
  renderSection_eq_evalAll partials depth t ⟨t.source, 0, scope⟩

end Stencil
