import Stencil.Proofs.Render.Branches
import Stencil.Proofs.Render.Faults
import Stencil.Proofs.Tag.Cursor

/-!
# The bodies of blocks

Two searches count open blocks: the scan for the end of a block, which stops when its own block is
closed, and the search for the branches of a body, which takes one off for a closing tag and stays
at zero if there is nothing to take off. They agree on what the renderer looks at, because of what a
body is: no beginning of it closes more blocks than it opens (`Block.closesWithin_body`), whether or
not a tag closes the block. The branches of a body keep that bound (`closesWithin_splitElse_fst`,
`closesWithin_splitElse_snd`), so it holds of every section of a block
(`Block.closesWithin_sections`). And where the bound is kept:

* `not_isClosing_of_mem_outermost` — no closing tag stands outside of all blocks;
* `strictSplitElse_eq` — the search for the branches never takes one off from zero. With a
  difference in it that must not go below zero it does the same, without a mishap;
* `selfContained_splitElse_fst` — the first branch, if there is another one, keeps to itself.

All three follow the tags from the front, with the depth of the search as the bound.
-/

namespace Stencil

/-! ### The bound along tags -/

namespace Tag

/-- **Tags in two parts** keep the bound if each part does, the second one with as many open blocks
as the first one leaves. -/
theorem closesWithin_append_iff {depth : Nat} {l m : List Tag} :
    ClosesWithin depth (l ++ m) ↔ ClosesWithin depth l ∧ ClosesWithin (depthBehind depth l) m := by
  induction l generalizing depth with
  | nil => simp [closesWithin_nil]
  | cons tag l ih =>
    rw [List.cons_append, closesWithin_cons_iff, closesWithin_cons_iff, ih, depthBehind_cons,
      and_assoc]

/-- Tags that close no block too many and leave none open keep to themselves, if none of them
separates branches further out. -/
theorem areOwn_of_closesWithin {depth : Nat} {ks : List Token}
    (hnone : alternativeAt depth ks = none) (hwithin : ClosesWithin depth (ks.map Token.tag))
    (hdepth : depthBehind depth (ks.map Token.tag) = 0) : areOwn depth (ks.map Token.tag) := by
  induction ks generalizing depth with
  | nil => exact decide_eq_true hdepth
  | cons k ks ih =>
    rw [alternativeAt, cutAt] at hnone
    split at hnone
    · cases hnone
    · next hhit =>
      rw [List.map_cons, closesWithin_cons_iff] at hwithin
      obtain ⟨hclosing, hwithin⟩ := hwithin
      rw [List.map_cons, areOwn, Bool.and_eq_true]
      refine ⟨?_, ih (Option.map_eq_none_iff.1 hnone) hwithin hdepth⟩
      -- what is neither a closing nor a separating tag has nothing to do with blocks further out
      cases htag : k.tag with
      | closing kind =>
        refine decide_eq_true fun hzero => hclosing ⟨hzero, ?_⟩
        rw [htag]
        rfl
      | alternative =>
        refine decide_eq_true fun hzero => hhit ⟨hzero, ?_⟩
        rw [htag]
        rfl
      | _ => rfl

end Tag

/-- **No closing tag stands outside of all blocks** where the bound is kept. -/
theorem not_isClosing_of_mem_outermost {depth : Nat} {ks : List Token}
    (h : Tag.ClosesWithin depth (ks.map Token.tag)) {x : Token × List Token}
    (hx : x ∈ outermost depth ks) : ¬ x.1.tag.isClosing := by
  induction ks generalizing depth with
  | nil => cases hx
  | cons k ks ih =>
    rw [List.map_cons, Tag.closesWithin_cons_iff] at h
    obtain ⟨hclosing, hwithin⟩ := h
    rw [outermost, List.mem_append] at hx
    rcases hx with hx | hx
    · -- this is the first tag, and no block is open before it
      split at hx
      · next hzero =>
        obtain rfl := List.mem_singleton.1 hx
        exact fun hk => hclosing ⟨hzero, hk⟩
      · cases hx
    · exact ih hwithin hx

/-! ### Bodies and branches -/

/-- **A body** closes no block that it does not open. If a tag closes the block, the scan has
stopped at the first one that does; and if none does, it is the whole text that keeps the bound. -/
theorem Block.closesWithin_body (kind : BlockKind) (content : Text) :
    Tag.ClosesWithin 0 (tagsIn (scan kind content).body) := by
  cases hx : closeAt 0 (tokens 0 content) with
  | none =>
    rw [scan_of_closeAt_none kind hx, tagsIn, ← map_tag_tokens 0]
    exact closeAt_eq_none_iff.1 hx
  | some x =>
    obtain ⟨close, -, -, -, -, hbalanced⟩ := scan_cuts_at_closeAt kind hx
    exact hbalanced.closesWithin

/-- **The branches of a body** are all of it but the tag that separates them. -/
theorem exists_alternative_of_splitElse_snd {body other : Text}
    (h : (splitElse body).2 = some other) :
    ∃ k, k.tag = .alternative ∧ body = (splitElse body).1 ++ k.lexeme ++ other ∧
      tokens 0 body = tokens 0 (splitElse body).1 ++ k :: tokens k.stop other := by
  obtain ⟨x, hx, hc⟩ := exists_agrees_of_splitElse_snd 0 h
  have hall : x.all = tokens 0 body := all_of_cutAt hx
  refine ⟨x.token, Tag.isAlternative_iff.1 (hit_of_cutAt hx), hc.text_eq hall, ?_⟩
  rw [show tokens 0 (splitElse body).1 = x.before from hc.tokens_before,
    show tokens x.token.stop other = x.after from hc.tokens_after]
  exact hall.symm

section Branches

variable {body : Text} (h : Tag.ClosesWithin 0 (tagsIn body))
include h

/-- The parts of a body around the tag that separates its branches keep the bound. -/
theorem closesWithin_of_alternativeAt {c : Cut} {x : TokenCut}
    (hx : alternativeAt 0 (tokens 0 body) = some x) (hc : c.Agrees x 0 body) :
    Tag.ClosesWithin 0 (tagsIn c.before) ∧ Tag.ClosesWithin 0 (tagsIn c.after) := by
  have htag : x.token.tag = .alternative := Tag.isAlternative_iff.1 (hit_of_cutAt hx)
  have hbody : tagsIn body = tagsIn c.before ++ .alternative :: tagsIn c.after := by
    rw [hc.tagsIn_before, hc.tagsIn_after, ← htag, ← List.map_cons, ← List.map_append, tagsIn,
      ← map_tag_tokens 0]
    exact congrArg _ (all_of_cutAt hx).symm
  -- no block is open where the branches are separated
  have hdepth : Tag.depthBehind 0 (tagsIn c.before) = 0 := by
    rw [hc.tagsIn_before]
    exact depthBehind_before hx
  rw [hbody, Tag.closesWithin_append_iff, hdepth, Tag.closesWithin_cons_iff] at h
  exact ⟨h.1, h.2.2⟩

theorem closesWithin_splitElse_fst : Tag.ClosesWithin 0 (tagsIn (splitElse body).1) := by
  cases hx : alternativeAt 0 (tokens 0 body) with
  | none =>
    rw [splitElse_of_alternativeAt_none hx]
    exact h
  | some x =>
    obtain ⟨c, hsplit, hc⟩ := splitElse_of_alternativeAt hx
    rw [hsplit]
    exact (closesWithin_of_alternativeAt h hx hc).1

theorem closesWithin_splitElse_snd {other : Text} (hother : (splitElse body).2 = some other) :
    Tag.ClosesWithin 0 (tagsIn other) := by
  obtain ⟨x, hx, hc⟩ := exists_agrees_of_splitElse_snd 0 hother
  exact (closesWithin_of_alternativeAt h hx hc).2

/-- **The first branch** keeps to itself: where the branches are separated, no block is open, and no
tag before that separates them. -/
theorem selfContained_splitElse_fst {other : Text} (hother : (splitElse body).2 = some other) :
    SelfContained (splitElse body).1 := by
  obtain ⟨x, hx, hc⟩ := exists_agrees_of_splitElse_snd 0 hother
  have hfirst : Tag.ClosesWithin 0 (tagsIn (splitElse body).1) :=
    (closesWithin_of_alternativeAt h hx hc).1
  have htags : tagsIn (splitElse body).1 = x.before.map Token.tag := hc.tagsIn_before
  show Tag.areOwn 0 (tagsIn (splitElse body).1)
  rw [htags] at hfirst ⊢
  exact Tag.areOwn_of_closesWithin (cutAt_before hx) hfirst (depthBehind_before hx)

end Branches

/-- **The sections of a block** close no block that they do not open. -/
theorem Block.closesWithin_sections {kind : BlockKind} {content : Text} {offset : Nat}
    {value : Value} {scope : Scope} {x : Section}
    (h : x ∈ (scan kind content).sections offset value scope) :
    Tag.ClosesWithin 0 (tagsIn x.text) := by
  have hbody := closesWithin_body kind content
  rcases mem_sections h with ⟨htext, -⟩ | ⟨htext, -⟩ | ⟨hother, -⟩
  · rw [htext]
    exact hbody
  · rw [htext]
    exact closesWithin_splitElse_fst hbody
  · exact closesWithin_splitElse_snd hbody hother

/-! ### A depth that does not go below zero -/

/-- The search `elseIn?`, with a difference that **must not go below zero** where that search takes
one off for a closing tag. -/
def strictElseIn (depth : Nat) : List TagSplit → Checked (Option Cut)
  | [] => pure none
  | s :: stream =>
    match s.tag, depth with
    | .alternative, 0 => pure (some ⟨s.before, s.rest⟩)
    | .opening .., depth => Option.map (.push s.upTo) <$> strictElseIn (depth + 1) stream
    | .closing _, depth => do
      let depth ← Checked.minus depth 1
      Option.map (.push s.upTo) <$> strictElseIn depth stream
    | _, depth => Option.map (.push s.upTo) <$> strictElseIn depth stream

/-- The two branches of a body, by that search. -/
def strictSplitElse (body : Text) : Checked (Text × Option Text) :=
  branchesOfCut body <$> strictElseIn 0 (tags body)

theorem strictElseIn_eq {depth : Nat} {stream : List TagSplit}
    (h : Tag.ClosesWithin depth (stream.map TagSplit.tag)) :
    strictElseIn depth stream = pure (elseIn? depth stream) := by
  induction stream generalizing depth with
  | nil => rfl
  | cons s stream ih =>
    rw [List.map_cons, Tag.closesWithin_cons_iff] at h
    obtain ⟨hclosing, hwithin⟩ := h
    -- both searches go on with the depth behind the tag, which keeps the bound again
    have further : Option.map (Cut.push s.upTo) <$> strictElseIn (s.tag.depthAfter depth) stream
        = pure ((elseIn? (s.tag.depthAfter depth) stream).map (.push s.upTo)) := by
      rw [ih hwithin]
      rfl
    rw [strictElseIn.eq_def, elseIn?.eq_def]
    simp only
    cases htag : s.tag with
    | closing kind =>
      rw [htag] at hclosing further
      have hpos : 1 ≤ depth := Nat.pos_of_ne_zero fun hzero => hclosing ⟨hzero, rfl⟩
      simp only [Checked.minus_eq_pure hpos, pure_bind]
      exact further
    | alternative =>
      rw [htag] at further
      cases depth with
      | zero => rfl
      | succ depth => exact further
    | _ =>
      rw [htag] at further
      exact further

/-- **The search for the branches** of a body never takes one off from zero. -/
theorem strictSplitElse_eq {body : Text} (h : Tag.ClosesWithin 0 (tagsIn body)) :
    strictSplitElse body = pure (splitElse body) := by
  rw [strictSplitElse, strictElseIn_eq h, splitElse]
  cases elseIn? 0 (tags body) with
  | none => rfl
  | some c => rfl

/-- In a text that is no body it does. -/
example : strictSplitElse "\x7b\x7b/if\x7d\x7d".toList = throw (.difference 0 1) := by cbv

/-- Whether the branches of a body are found **without regard to blocks further out**: the depth of
the search does not go below zero, and if there are two branches, the first one keeps to itself and
the tag that separates them is all that the two do not hold of the body. -/
structure SplitsStrictly (body : Text) : Prop where
  strict : strictSplitElse body = pure (splitElse body)
  branches : ∀ other, (splitElse body).2 = some other →
    SelfContained (splitElse body).1 ∧
      ∃ k, k.tag = .alternative ∧ body = (splitElse body).1 ++ k.lexeme ++ other ∧
        tokens 0 body = tokens 0 (splitElse body).1 ++ k :: tokens k.stop other

/-- The body of every block is such a one. -/
theorem Block.splitsStrictly_body (kind : BlockKind) (content : Text) :
    SplitsStrictly (scan kind content).body where
  strict := strictSplitElse_eq (closesWithin_body kind content)
  branches := by
    intro other hother
    refine ⟨?_, exists_alternative_of_splitElse_snd hother⟩
    exact selfContained_splitElse_fst (closesWithin_body kind content) hother

end Stencil
