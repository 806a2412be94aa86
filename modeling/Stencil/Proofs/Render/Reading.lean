import Stencil.Proofs.Render.Tree

/-!
# How trees grow

The parser of `Tree.lean` reads tags one after the other and matches them on a stack. What it makes
of a list of tags can also be told from the first tag on:

* `treeOf_plain`, `treeOf_closing` — a tag that is no block tag, and a closing tag outside of any
  block, give fragments of their own in front of the tree of the rest;
* `treeOf_closed` — an opening tag and the tag at which `closeAt` cuts make one block, whose body is
  the tree of what stands between them;
* `treeOf_unclosed` — without such a tag all the rest is its body;
* `branching` — the branches of a body are the trees of the two parts at which
  `alternativeAt` cuts.

The parser meets these facts in another order: it opens a block before it knows where the block
ends. `Modular` says what it does under an open block, and carries the induction.
-/

namespace Stencil

/-! ### Tags that are no block tags -/

/-- The fragment of a tag that neither opens nor closes a block. -/
def Token.plain? (k : Token) : Option Fragment :=
  match k.tag with
  | .value path => some (.value path)
  | .alternative => some .alternative
  | .inclusion name => some (.inclusion name k.start k.stop)
  | _ => none

/-- Such a tag counts for no block. -/
theorem closeAt_plain {k : Token} {y : Fragment} (h : k.plain? = some y) (depth : Nat)
    (ks : List Token) : closeAt depth (k :: ks) = (closeAt depth ks).map (.push k) := by
  unfold Token.plain? at h
  split at h
  · next htag => rw [closeAt, cutAt_of_not_hit (by rw [htag]; rfl), htag]; rfl
  · next htag => rw [closeAt, cutAt_of_not_hit (by rw [htag]; rfl), htag]; rfl
  · next htag => rw [closeAt, cutAt_of_not_hit (by rw [htag]; rfl), htag]; rfl
  · cases h

/-! ### The parser, one tag at a time -/

namespace Parser

/-- The block that a tag opens behind some fragments. -/
def opened (xs : List Fragment) (kind : BlockKind) (path : Text) (k : Token) : Frame :=
  ⟨kind, path, k.start, k.stop, xs ++ [.text k.before]⟩

theorem step_plain {k : Token} {y : Fragment} (h : k.plain? = some y) (p : Parser) :
    p.step k = ⟨p.fragments ++ [.text k.before, y], p.frames⟩ := by
  unfold Token.plain? at h
  split at h
  · next htag => cases h; simp [step, push, htag]
  · next htag => cases h; simp [step, push, htag]
  · next htag => cases h; simp [step, push, htag]
  · cases h

theorem step_opening {k : Token} {kind : BlockKind} {path : Text} (h : k.tag = .opening kind path)
    (xs : List Fragment) (frames : List Frame) :
    step ⟨xs, frames⟩ k = ⟨[], opened xs kind path k :: frames⟩ := by
  simp [step, push, opened, h]

theorem step_closing_nil {k : Token} {kind : BlockKind} (h : k.tag = .closing kind)
    (xs : List Fragment) : step ⟨xs, []⟩ k = ⟨xs ++ [.text k.before, .text k.lexeme], []⟩ := by
  simp [step, push, h]

theorem step_closing_cons {k : Token} {kind : BlockKind} (h : k.tag = .closing kind)
    (xs : List Fragment) (f : Frame) (outer : List Frame) :
    step ⟨xs, f :: outer⟩ k
      = ⟨f.before ++ [f.block (some kind) (xs ++ [.text k.before])], outer⟩ := by
  simp [step, push, h]

/-- The kinds of the blocks that are open, from tag to tag. -/
theorem map_kind_step (p : Parser) (k : Token) :
    (p.step k).frames.map Frame.kind = k.tag.kindsAfter (p.frames.map Frame.kind) := by
  obtain ⟨xs, frames⟩ := p
  cases htag : k.tag with
  | opening kind path => rw [step_opening htag]; rfl
  | closing kind =>
    cases frames with
    | nil => rw [step_closing_nil htag]; rfl
    | cons f outer => rw [step_closing_cons htag]; rfl
  | _ => rw [step_plain (by rw [Token.plain?, htag])]; rfl

theorem parse_cons (p : Parser) (k : Token) (ks : List Token) (last : Text) :
    p.parse (k :: ks) last = (p.step k).parse ks last := rfl

theorem parse_append (p : Parser) (ks ls : List Token) (last : Text) :
    p.parse (ks ++ ls) last = (ks.foldl step p).parse ls last := by
  rw [parse, parse, List.foldl_append]

theorem parse_nil (xs : List Fragment) (frames : List Frame) (last : Text) :
    parse ⟨xs, frames⟩ [] last = finish (xs ++ [.text last]) frames := rfl

end Parser

open Stencil.Parser

/-- What the parser does with some tags and the text behind them, told from where it is. -/
structure Modular (ks : List Token) (last : Text) : Prop where
  /-- What has been read outside of all blocks stays as it is. -/
  prepend : ∀ before xs, parse ⟨before ++ xs, []⟩ ks last = before ++ parse ⟨xs, []⟩ ks last
  /-- An open block that nothing closes takes the tree of all that follows. -/
  unclosed : closeAt 0 ks = none → ∀ xs f outer,
    parse ⟨xs, f :: outer⟩ ks last
      = finish (f.before ++ [f.block none (xs ++ treeOf ks last)]) outer
  /-- An open block takes the tree of what stands before the tag that closes it. -/
  closed : ∀ x kind, closeAt 0 ks = some x → x.token.tag = .closing kind → ∀ xs f outer,
    parse ⟨xs, f :: outer⟩ ks last
      = parse ⟨f.before ++ [f.block (some kind) (xs ++ treeOf x.before x.token.before)], outer⟩
          x.after last

namespace Modular

variable {k : Token} {ks : List Token} {last : Text}

theorem parse_eq (h : Modular ks last) (xs : List Fragment) :
    parse ⟨xs, []⟩ ks last = xs ++ treeOf ks last := by
  have := h.prepend xs []
  rwa [List.append_nil] at this

protected theorem nil (last : Text) : Modular [] last where
  prepend before xs := by
    rw [parse_nil, parse_nil]
    exact List.append_assoc ..
  unclosed _ xs f outer := by
    rw [parse_nil]
    rfl
  closed x kind h := by cases h

theorem treeOf_plain {y : Fragment} (h : Modular ks last) (hy : k.plain? = some y) :
    treeOf (k :: ks) last = .text k.before :: y :: treeOf ks last := by
  rw [treeOf, parse_cons, step_plain hy, List.nil_append, h.parse_eq]
  rfl

theorem treeOf_closing {kind : BlockKind} (h : Modular ks last) (htag : k.tag = .closing kind) :
    treeOf (k :: ks) last = .text k.before :: .text k.lexeme :: treeOf ks last := by
  rw [treeOf, parse_cons, step_closing_nil htag, List.nil_append, h.parse_eq]
  rfl

theorem treeOf_unclosed {kind : BlockKind} {path : Text} (h : Modular ks last)
    (htag : k.tag = .opening kind path) (hks : closeAt 0 ks = none) :
    treeOf (k :: ks) last
      = [.text k.before, (opened [] kind path k).block none (treeOf ks last)] := by
  rw [treeOf, parse_cons, step_opening htag, h.unclosed hks]
  rfl

theorem treeOf_closed {kind close : BlockKind} {path : Text} {x : TokenCut} (h : Modular ks last)
    (hafter : Modular x.after last) (htag : k.tag = .opening kind path)
    (hks : closeAt 0 ks = some x) (hclose : x.token.tag = .closing close) :
    treeOf (k :: ks) last
      = .text k.before :: (opened [] kind path k).block (some close)
          (treeOf x.before x.token.before) :: treeOf x.after last := by
  rw [treeOf, parse_cons, step_opening htag, h.closed x close hks hclose, hafter.parse_eq]
  rfl

/-! Each kind of token keeps the parser modular, provided that it is so on all shorter lists. -/

theorem cons_plain {y : Fragment} (hy : k.plain? = some y)
    (ih : ∀ ks' last', ks'.length ≤ ks.length → Modular ks' last') : Modular (k :: ks) last := by
  have h := ih ks last (Nat.le_refl _)
  have hcut : closeAt 0 (k :: ks) = (closeAt 0 ks).map (.push k) := closeAt_plain hy 0 ks
  refine ⟨?_, ?_, ?_⟩
  · intro before xs
    rw [parse_cons, parse_cons, step_plain hy, step_plain hy, List.append_assoc, h.prepend]
  · intro hks xs f outer
    rw [hcut, Option.map_eq_none_iff] at hks
    rw [parse_cons, step_plain hy, h.unclosed hks, h.treeOf_plain hy, List.append_assoc]
    rfl
  · intro x kind hks hclose xs f outer
    rw [hcut] at hks
    obtain ⟨x, hx, rfl⟩ := Option.map_eq_some_iff.1 hks
    -- the body of the block gains a tag, and is a shorter list all the same
    have hbody := ih x.before x.token.before (by rw [length_of_cutAt hx]; omega)
    rw [parse_cons, step_plain hy, h.closed x kind hx hclose, List.append_assoc]
    rw [TokenCut.before_push, TokenCut.token_push, TokenCut.after_push, hbody.treeOf_plain hy]
    rfl

theorem cons_closing {close : BlockKind} (htag : k.tag = .closing close)
    (h : Modular ks last) : Modular (k :: ks) last := by
  -- outside of all blocks the tag is text, and inside of one it ends the block at once
  have hcut : closeAt 0 (k :: ks) = some ⟨[], k, ks⟩ := cutAt_of_hit (by rw [htag]; rfl) ks
  refine ⟨?_, ?_, ?_⟩
  · intro before xs
    rw [parse_cons, parse_cons, step_closing_nil htag, step_closing_nil htag, List.append_assoc,
      h.prepend]
  · intro hks
    rw [hcut] at hks
    cases hks
  · intro x kind hks hclose xs f outer
    rw [hcut] at hks
    obtain rfl := Option.some.inj hks
    obtain rfl : close = kind := Tag.closing.inj (htag.symm.trans hclose)
    rw [parse_cons, step_closing_cons htag]
    rfl

theorem cons_opening {kind : BlockKind} {path : Text} (htag : k.tag = .opening kind path)
    (ih : ∀ ks' last', ks'.length ≤ ks.length → Modular ks' last') : Modular (k :: ks) last := by
  have h := ih ks last (Nat.le_refl _)
  have hcut := cutAt_opening Tag.isClosing htag (by rw [htag]; rfl) ks
  cases hks : closeAt 0 ks with
  | none =>
    -- the block takes all that follows, so a block around it is not closed either
    rw [hks, Option.bind_none, Option.map_none] at hcut
    refine ⟨?_, ?_, ?_⟩
    · intro before xs
      rw [parse_cons, parse_cons, step_opening htag, step_opening htag, h.unclosed hks,
        h.unclosed hks]
      simp only [finish, opened, List.append_assoc]
      rfl
    · intro _ xs f outer
      rw [parse_cons, step_opening htag, h.unclosed hks, h.treeOf_unclosed htag hks]
      simp only [finish, opened, List.append_assoc]
      rfl
    · intro x close hx
      rw [closeAt, hcut] at hx
      cases hx
  | some x =>
    -- the parser goes on behind the block, where the list is shorter
    obtain ⟨close, hclose⟩ := Tag.isClosing_iff.1 (hit_of_cutAt hks)
    have hlength := length_of_cutAt hks
    have hafter := ih x.after last (by omega)
    rw [hks, Option.bind_some] at hcut
    refine ⟨?_, ?_, ?_⟩
    · intro before xs
      rw [parse_cons, parse_cons, step_opening htag, step_opening htag, h.closed x close hks hclose,
        h.closed x close hks hclose]
      simp only [opened, List.append_assoc]
      exact hafter.prepend ..
    · intro hnone xs f outer
      rw [closeAt, hcut, Option.map_eq_none_iff, Option.map_eq_none_iff] at hnone
      rw [parse_cons, step_opening htag, h.closed x close hks hclose, hafter.unclosed hnone,
        h.treeOf_closed hafter htag hks hclose]
      simp only [opened, List.append_assoc]
      rfl
    · intro z kind' hz hkind xs f outer
      -- the block around is closed at `y`, behind the tag `x` that closes the block inside
      rw [closeAt, hcut, Option.map_map] at hz
      obtain ⟨y, hy, rfl⟩ := Option.map_eq_some_iff.1 hz
      have hlength' := length_of_cutAt hy
      have hbody := ih (x.before ++ x.token :: y.before) y.token.before
        (by rw [List.length_append, List.length_cons]; omega)
      have hinner := ih y.before y.token.before (by omega)
      rw [parse_cons, step_opening htag, h.closed x close hks hclose,
        hafter.closed y kind' hy hkind]
      simp only [Function.comp_apply, TokenCut.before_push, TokenCut.before_join,
        TokenCut.token_push, TokenCut.token_join, TokenCut.after_push, TokenCut.after_join]
      rw [hbody.treeOf_closed hinner htag (cutAt_append hks y.before) hclose]
      simp only [opened, List.append_assoc]
      rfl

end Modular

/-- The parser is modular. -/
theorem modular (ks : List Token) (last : Text) : Modular ks last := by
  -- by length, because what stands in a block and what follows it are no tails of the list
  induction hn : ks.length using Nat.strongRecOn generalizing ks last with
  | ind n ih =>
    subst hn
    cases ks with
    | nil => exact .nil last
    | cons k ks =>
      have shorter : ∀ ks' last', ks'.length ≤ ks.length → Modular ks' last' :=
        fun ks' last' hle => ih ks'.length (Nat.lt_succ_of_le hle) ks' last' rfl
      cases htag : k.tag with
      | opening kind path => exact .cons_opening htag shorter
      | closing kind => exact .cons_closing htag (shorter ks last (Nat.le_refl _))
      | value path => exact .cons_plain (by rw [Token.plain?, htag]) shorter
      | alternative => exact .cons_plain (by rw [Token.plain?, htag]) shorter
      | inclusion name => exact .cons_plain (by rw [Token.plain?, htag]) shorter

/-! ### Trees, from the first tag on -/

section Trees

variable {k : Token} {ks : List Token} {last : Text}

theorem treeOf_nil (last : Text) : treeOf [] last = [.text last] := rfl

theorem treeOf_plain {y : Fragment} (h : k.plain? = some y) :
    treeOf (k :: ks) last = .text k.before :: y :: treeOf ks last :=
  (modular ks last).treeOf_plain h

theorem treeOf_closing {kind : BlockKind} (h : k.tag = .closing kind) :
    treeOf (k :: ks) last = .text k.before :: .text k.lexeme :: treeOf ks last :=
  (modular ks last).treeOf_closing h

theorem treeOf_unclosed {kind : BlockKind} {path : Text} (h : k.tag = .opening kind path)
    (hks : closeAt 0 ks = none) :
    treeOf (k :: ks) last
      = [.text k.before, (opened [] kind path k).block none (treeOf ks last)] :=
  (modular ks last).treeOf_unclosed h hks

theorem treeOf_closed {kind close : BlockKind} {path : Text} {x : TokenCut}
    (h : k.tag = .opening kind path) (hks : closeAt 0 ks = some x)
    (hclose : x.token.tag = .closing close) :
    treeOf (k :: ks) last
      = .text k.before :: (opened [] kind path k).block (some close)
          (treeOf x.before x.token.before) :: treeOf x.after last :=
  (modular ks last).treeOf_closed (modular x.after last) h hks hclose

end Trees

/-! ### The branches of a tree -/

/-- A block is no separating tag. -/
theorem splitAlternative_block_cons (f : Frame) (close : Option BlockKind)
    (body rest : List Fragment) :
    splitAlternative (f.block close body :: rest)
      = (f.block close body :: (splitAlternative rest).1, (splitAlternative rest).2) := by
  unfold Frame.block
  split <;> rfl

/-- How a body falls into branches, told from its tokens. -/
structure Branching (ks : List Token) (last : Text) : Prop where
  whole : alternativeAt 0 ks = none → splitAlternative (treeOf ks last) = (treeOf ks last, none)
  parts : ∀ x, alternativeAt 0 ks = some x → splitAlternative (treeOf ks last)
    = (treeOf x.before x.token.before, some (treeOf x.after last))

namespace Branching

variable {k : Token} {ks : List Token} {last : Text}

/-- A tag that only adds a fragment, which separates nothing, adds it to the first branch. -/
theorem cons_leaf {z : Fragment} (h : Branching ks last)
    (hz : ∀ rest, splitAlternative (z :: rest)
      = (z :: (splitAlternative rest).1, (splitAlternative rest).2))
    (htree : ∀ ks last, treeOf (k :: ks) last = .text k.before :: z :: treeOf ks last)
    (hcut : alternativeAt 0 (k :: ks) = (alternativeAt 0 ks).map (.push k)) :
    Branching (k :: ks) last := by
  refine ⟨?_, ?_⟩
  -- without a separating tag all is one branch; with one, the leaf stands in the first of two
  · intro hks
    rw [hcut, Option.map_eq_none_iff] at hks
    rw [htree, splitAlternative, hz, h.whole hks]
    simp
  · intro x hks
    rw [hcut] at hks
    obtain ⟨x, hx, rfl⟩ := Option.map_eq_some_iff.1 hks
    rw [htree, splitAlternative, hz, h.parts x hx]
    · rw [TokenCut.before_push, TokenCut.token_push, TokenCut.after_push, htree]
    · simp

/-- A separating tag in front ends the first branch. -/
theorem cons_alternative (htag : k.tag = .alternative) : Branching (k :: ks) last := by
  have hcut : alternativeAt 0 (k :: ks) = some ⟨[], k, ks⟩ := cutAt_of_hit (by rw [htag]; rfl) ks
  refine ⟨?_, ?_⟩
  · intro hks
    rw [hcut] at hks
    cases hks
  · intro x hks
    rw [hcut] at hks
    obtain rfl := Option.some.inj hks
    rw [treeOf_plain (by rw [Token.plain?, htag])]
    rfl

/-- A block is a fragment of the first branch, whatever separating tags stand in it. -/
theorem cons_opening {kind : BlockKind} {path : Text} (htag : k.tag = .opening kind path)
    (ih : ∀ ks' last', ks'.length ≤ ks.length → Branching ks' last') :
    Branching (k :: ks) last := by
  have hcut := cutAt_opening Tag.isAlternative htag (by rw [htag]; rfl) ks
  cases hks : closeAt 0 ks with
  | none =>
    -- all that follows is in the block, so nothing is left that could separate branches
    rw [hks, Option.bind_none, Option.map_none] at hcut
    refine ⟨?_, ?_⟩
    · intro _
      rw [treeOf_unclosed htag hks, splitAlternative, splitAlternative_block_cons]
      · rfl
      · simp
    · intro x hx
      rw [alternativeAt, hcut] at hx
      cases hx
  | some x =>
    obtain ⟨close, hclose⟩ := Tag.isClosing_iff.1 (hit_of_cutAt hks)
    have hlength := length_of_cutAt hks
    -- the branches part behind the block, if at all
    have hafter := ih x.after last (by omega)
    rw [hks, Option.bind_some] at hcut
    refine ⟨?_, ?_⟩
    · intro hnone
      rw [alternativeAt, hcut, Option.map_eq_none_iff, Option.map_eq_none_iff] at hnone
      rw [treeOf_closed htag hks hclose, splitAlternative, splitAlternative_block_cons,
        hafter.whole hnone]
      simp
    · intro z hz
      rw [alternativeAt, hcut, Option.map_map] at hz
      obtain ⟨y, hy, rfl⟩ := Option.map_eq_some_iff.1 hz
      rw [treeOf_closed htag hks hclose, splitAlternative, splitAlternative_block_cons,
        hafter.parts y hy]
      · simp only [Function.comp_apply, TokenCut.before_push, TokenCut.before_join,
          TokenCut.token_push, TokenCut.token_join, TokenCut.after_push, TokenCut.after_join]
        rw [treeOf_closed htag (cutAt_append hks y.before) hclose]
      · simp

end Branching

/-- **The branches of a body** are the trees of the two parts at which its tokens are cut. -/
theorem branching (ks : List Token) (last : Text) : Branching ks last := by
  induction hn : ks.length using Nat.strongRecOn generalizing ks last with
  | ind n ih =>
    subst hn
    cases ks with
    | nil => exact ⟨fun _ => rfl, by intro x hx; cases hx⟩
    | cons k ks =>
      have shorter : ∀ ks' last', ks'.length ≤ ks.length → Branching ks' last' :=
        fun ks' last' hle => ih ks'.length (Nat.lt_succ_of_le hle) ks' last' rfl
      have hrest := shorter ks last (Nat.le_refl _)
      -- of the other tags, none separates and none opens anything
      have hleaf : k.tag.isAlternative = false → k.tag.depthAfter 0 = 0 →
          alternativeAt 0 (k :: ks) = (alternativeAt 0 ks).map (.push k) := by
        intro hhit hdepth
        rw [alternativeAt, cutAt_of_not_hit hhit, hdepth]
      cases htag : k.tag with
      | opening kind path => exact .cons_opening htag shorter
      | alternative => exact .cons_alternative htag
      | closing kind =>
        exact hrest.cons_leaf (fun _ => rfl) (fun _ _ => treeOf_closing htag)
          (hleaf (by rw [htag]; rfl) (by rw [htag]; rfl))
      | value path =>
        have hplain : k.plain? = some (.value path) := by rw [Token.plain?, htag]
        exact hrest.cons_leaf (fun _ => rfl) (fun _ _ => treeOf_plain hplain)
          (hleaf (by rw [htag]; rfl) (by rw [htag]; rfl))
      | inclusion name =>
        have hplain : k.plain? = some (.inclusion name k.start k.stop) := by
          rw [Token.plain?, htag]
        exact hrest.cons_leaf (fun _ => rfl) (fun _ _ => treeOf_plain hplain)
          (hleaf (by rw [htag]; rfl) (by rw [htag]; rfl))

end Stencil
