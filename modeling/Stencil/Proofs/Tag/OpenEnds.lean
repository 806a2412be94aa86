import Stencil.Proofs.Tag.Balance

/-!
# What slices leave open

The renderer looks for the end of a block in the slice that it works on, and not in the whole
source. It may do so because of what the slices leave open: one that does not run to the end of the
source closes every block that it opens, so the end of such a block stands in it, and behind that
end the scan does not look (`SliceOf.scan_eq`).

This is what a slice keeps of the source (`SliceOf`). The renderer takes slices in four ways, and
each of them gives such a slice:

* `SliceOf.behind`, `SliceOf.behindBlock` — what is left behind a tag, and behind a block;
* `SliceOf.body`, `SliceOf.splitElse_fst`, `SliceOf.splitElse_snd` — the body of a block, and the
  branches of a body.

A slice of a slice is a slice of the source (`SliceOf.trans`). For that it matters that a slice of a
text which leaves nothing open leaves nothing open itself; all of this is counted along the tokens,
by the depth behind the tags of a cut (`Tag.depthBehind`).
-/

namespace Stencil

/-! ### The depth behind tags -/

namespace Tag

/-- With one more block open around them, tags leave one more block open, unless they close it. -/
theorem depthAfter_succ {depth : Nat} {tag : Tag} (h : ¬ (depth = 0 ∧ tag.isClosing)) :
    tag.depthAfter (depth + 1) = tag.depthAfter depth + 1 := by
  cases tag with
  | closing kind =>
    have hpos : depth ≠ 0 := fun hzero => h ⟨hzero, rfl⟩
    simp only [depthAfter]
    omega
  | _ => rfl

end Tag

/-- A text leaves no block open just if the depth behind its tags is none. -/
theorem unclosed_eq_nil_iff (offset : Nat) {t : Text} :
    unclosed t = [] ↔ Tag.depthBehind 0 ((tokens offset t).map Token.tag) = 0 := by
  rw [map_tag_tokens, unclosed, ← List.length_eq_zero_iff, Tag.length_foldl_kindsAfter]
  rfl

section Cuts

variable {depth : Nat} {ks : List Token} {x : TokenCut}

/-- In front of the tag that closes a block, only this block is open. -/
theorem depthBehind_before_of_closeAt (h : closeAt depth ks = some x) :
    Tag.depthBehind (depth + 1) (x.before.map Token.tag) = 1 := by
  induction ks generalizing depth x with
  | nil => cases h
  | cons k ks ih =>
    rw [closeAt, cutAt] at h
    split at h
    -- the first tag is the one that closes too much, and nothing stands before it
    · next hk =>
      obtain rfl := Option.some.inj h
      exact congrArg (· + 1) hk.1
    · next hk =>
      obtain ⟨x, hx, rfl⟩ := Option.map_eq_some_iff.1 h
      rw [TokenCut.before_push, List.map_cons, Tag.depthBehind_cons, Tag.depthAfter_succ hk]
      exact ih hx

/-- Behind the tag that closes it, what is left open is left open by what follows. -/
theorem depthBehind_of_closeAt (h : closeAt depth ks = some x) :
    Tag.depthBehind (depth + 1) (ks.map Token.tag)
      = Tag.depthBehind 0 (x.after.map Token.tag) := by
  obtain ⟨kind, hkind⟩ := Tag.isClosing_iff.1 (hit_of_cutAt h)
  rw [← all_of_cutAt h, TokenCut.all, List.map_append, List.map_cons, Tag.depthBehind_append,
    depthBehind_before_of_closeAt h, Tag.depthBehind_cons, hkind]
  rfl

/-- A block that no tag closes is left open. -/
theorem depthBehind_pos_of_closeAt_none (h : closeAt depth ks = none) :
    0 < Tag.depthBehind (depth + 1) (ks.map Token.tag) := by
  induction ks generalizing depth with
  | nil => exact Nat.succ_pos depth
  | cons k ks ih =>
    rw [closeAt, cutAt] at h
    split at h
    · cases h
    · next hk =>
      rw [List.map_cons, Tag.depthBehind_cons, Tag.depthAfter_succ hk]
      exact ih (Option.map_eq_none_iff.1 h)

end Cuts

/-- What stands before a cut leaves no block open. -/
theorem Cut.Agrees.unclosed_before {hit : Tag → Bool} {offset : Nat} {t : Text} {c : Cut}
    {x : TokenCut} (hc : c.Agrees x offset t) (hx : cutAt hit 0 (tokens offset t) = some x) :
    unclosed c.before = [] := by
  rw [unclosed_eq_nil_iff offset, hc.tokens_before]
  exact depthBehind_before hx

/-! ### Slices -/

/-- Whether the text `part`, from byte `offset` on, is a **slice** of the text `whole`, from byte
`around` on: it stands there, with no tags of its own; and it leaves no block open, unless it runs
to the end of `whole`, and not even then if `whole` leaves none open. -/
structure SliceOf (offset : Nat) (part : Text) (around : Nat) (whole : Text) : Prop where
  exists_append : ∃ before after, whole = before ++ part ++ after ∧
    offset = around + before.size ∧ (after = [] ∨ unclosed part = [])
  tokens_subset : tokens offset part ⊆ tokens around whole
  unclosed_eq_nil : unclosed whole = [] → unclosed part = []

section Blocks

variable {t : Text} {s : TagSplit} {kind : BlockKind} {path : Text}

/-- What a text leaves open that begins with an opening tag is counted behind this tag. -/
theorem unclosed_eq_nil_iff_of_opening (h : nextTag t = some s)
    (htag : s.tag = .opening kind path) (offset : Nat) :
    unclosed t = [] ↔ Tag.depthBehind 1 ((tokens offset s.rest).map Token.tag) = 0 := by
  rw [unclosed_eq_nil_iff 0, tokens_of_nextTag h, List.map_cons, Tag.depthBehind_cons, tag_token,
    htag, map_tag_tokens, map_tag_tokens]
  rfl

/-- **A block is closed** that begins a text which leaves no block open. -/
theorem Block.isClosed_of_unclosed_eq_nil (h : nextTag t = some s)
    (htag : s.tag = .opening kind path) (hopen : unclosed t = []) :
    (scan kind s.rest).isClosed := by
  rw [unclosed_eq_nil_iff_of_opening h htag 0] at hopen
  cases hx : closeAt 0 (tokens 0 s.rest) with
  | none =>
    exact absurd hopen (Nat.ne_of_gt (depthBehind_pos_of_closeAt_none hx))
  | some x =>
    obtain ⟨close, -, hclose, -⟩ := scan_of_closeAt kind hx
    rw [isClosed, hclose]
    rfl

end Blocks

namespace SliceOf

theorem refl (offset : Nat) (t : Text) : SliceOf offset t offset t where
  exists_append := ⟨[], [], (List.append_nil t).symm, rfl, .inl rfl⟩
  tokens_subset := List.Subset.refl _
  unclosed_eq_nil := id

/-- **A slice of a slice** is a slice. -/
theorem trans {o p q : Nat} {a b c : Text} (h : SliceOf o a p b) (h' : SliceOf p b q c) :
    SliceOf o a q c := by
  obtain ⟨before, after, rfl, rfl, hend⟩ := h.exists_append
  obtain ⟨before', after', rfl, rfl, hend'⟩ := h'.exists_append
  refine ⟨⟨before' ++ before, after ++ after', ?_, ?_, ?_⟩,
    fun k hk => h'.tokens_subset (h.tokens_subset hk), fun hc => h.unclosed_eq_nil
      (h'.unclosed_eq_nil hc)⟩
  · simp only [List.append_assoc]
  · rw [Text.size_append, Nat.add_assoc]
  · rcases hend with rfl | hend
    · -- `a` runs to the end of `b`, so it runs to the end of `c` if `b` does
      rcases hend' with rfl | hend'
      · exact .inl rfl
      · exact .inr (h.unclosed_eq_nil hend')
    · exact .inr hend

section Behind

variable {t : Text} {s : TagSplit} (h : nextTag t = some s) (offset : Nat)
include h

/-- What is left behind a tag that opens no block. -/
theorem behind (htag : s.tag.depthAfter 0 = 0) :
    SliceOf (s.token offset).stop s.rest offset t where
  exists_append := by
    refine ⟨s.upTo, [], ?_, stop_token s offset, .inl rfl⟩
    rw [List.append_nil, TagSplit.upTo_append_rest h]
  tokens_subset := tokens_behind_subset h offset
  unclosed_eq_nil := by
    rw [unclosed_eq_nil_iff offset, unclosed_eq_nil_iff (s.token offset).stop, tokens_of_nextTag h,
      List.map_cons, Tag.depthBehind_cons, tag_token, htag]
    exact id

section Opening

variable {kind : BlockKind} {path : Text} (htag : s.tag = .opening kind path)
include htag

/-- The body of a block. -/
theorem body : SliceOf (s.token offset).stop (Block.scan kind s.rest).body offset t := by
  have htext := TagSplit.upTo_append_rest h
  cases hx : closeAt 0 (tokens (s.token offset).stop s.rest) with
  | none =>
    rw [Block.scan_of_closeAt_none kind hx]
    refine ⟨⟨s.upTo, [], ?_, stop_token s offset, .inl rfl⟩, tokens_behind_subset h offset, ?_⟩
    · rw [List.append_nil, htext]
    · -- the block is left open, and so it is by the whole text
      intro hopen
      rw [unclosed_eq_nil_iff_of_opening h htag (s.token offset).stop] at hopen
      exact absurd hopen (Nat.ne_of_gt (depthBehind_pos_of_closeAt_none hx))
  | some x =>
    obtain ⟨close, -, -, hc⟩ := Block.scan_of_closeAt kind hx
    generalize Block.scan kind s.rest = b at hc ⊢
    have hrest := hc.text_eq (all_of_cutAt hx)
    have hopen : unclosed b.body = [] := hc.unclosed_before hx
    have htokens := List.Subset.trans (hc.tokens_before_subset hx) (tokens_behind_subset h offset)
    refine ⟨⟨s.upTo, x.token.lexeme ++ b.rest, ?_, stop_token s offset, .inr hopen⟩, htokens,
      fun _ => hopen⟩
    rw [← htext, hrest]
    simp only [List.append_assoc]

/-- What is left behind a block. -/
theorem behindBlock :
    SliceOf ((s.token offset).stop + (s.rest.size - (Block.scan kind s.rest).rest.size))
      (Block.scan kind s.rest).rest offset t := by
  have htext := TagSplit.upTo_append_rest h
  have hstart := stop_token s offset
  cases hx : closeAt 0 (tokens (s.token offset).stop s.rest) with
  | none =>
    -- nothing is left behind a block that runs to the end
    rw [Block.scan_of_closeAt_none kind hx]
    refine ⟨⟨t, [], ?_, ?_, .inl rfl⟩, ?_, ?_⟩
    · simp
    · have hsize := congrArg Text.size htext
      rw [Text.size_append] at hsize
      rw [Text.size_nil]
      omega
    · rw [tokens_of_nextTag_none (by rw [nextTag])]
      exact List.nil_subset _
    · intro _
      rw [unclosed_eq_nil_iff 0, tokens_of_nextTag_none (by rw [nextTag])]
      rfl
  | some x =>
    obtain ⟨close, -, -, hc⟩ := Block.scan_of_closeAt kind hx
    generalize Block.scan kind s.rest = b at hc ⊢
    have hrest := hc.text_eq (all_of_cutAt hx)
    -- what is left begins where the closing tag ends
    have hstop : (s.token offset).stop + (s.rest.size - b.rest.size) = x.token.stop := hc.stop_eq
    have hplace : x.token.stop = _ + (b.body ++ x.token.lexeme).size :=
      hc.stop_eq_size (all_of_cutAt hx)
    rw [hstop]
    have htokens := List.Subset.trans (hc.tokens_after_subset hx) (tokens_behind_subset h offset)
    refine ⟨⟨s.upTo ++ b.body ++ x.token.lexeme, [], ?_, ?_, .inl rfl⟩, htokens, ?_⟩
    · rw [List.append_nil, ← htext, hrest]
      simp only [List.append_assoc]
    · rw [hplace, hstart, List.append_assoc, Text.size_append s.upTo, Nat.add_assoc]
    · rw [unclosed_eq_nil_iff_of_opening h htag (s.token offset).stop,
        unclosed_eq_nil_iff x.token.stop, hc.tokens_after, depthBehind_of_closeAt hx]
      exact id

end Opening

end Behind

/-- The first branch of a body. -/
theorem splitElse_fst (offset : Nat) (t : Text) : SliceOf offset (splitElse t).1 offset t := by
  cases hx : alternativeAt 0 (tokens offset t) with
  | none =>
    rw [splitElse_of_alternativeAt_none hx]
    exact refl offset t
  | some x =>
    obtain ⟨c, hsplit, hc⟩ := splitElse_of_alternativeAt hx
    -- nothing is open where the branches are separated
    have hopen : unclosed c.before = [] := hc.unclosed_before hx
    rw [hsplit]
    refine ⟨⟨[], x.token.lexeme ++ c.after, ?_, rfl, .inr hopen⟩, ?_, fun _ => hopen⟩
    · rw [hc.text_eq (all_of_cutAt hx), List.nil_append, List.append_assoc]
    · exact hc.tokens_before_subset hx

/-- The other branch of a body. -/
theorem splitElse_snd (offset : Nat) {t other : Text} (h : (splitElse t).2 = some other) :
    SliceOf (offset + (t.size - other.size)) other offset t := by
  obtain ⟨x, hx, hc⟩ := exists_agrees_of_splitElse_snd offset h
  have hall : x.before ++ x.token :: x.after = tokens offset t := all_of_cutAt hx
  have hstop : offset + (t.size - other.size) = x.token.stop := hc.stop_eq
  have hafter : tokens x.token.stop other = x.after := hc.tokens_after
  rw [hstop]
  refine ⟨⟨(splitElse t).1 ++ x.token.lexeme, [], ?_, hc.stop_eq_size hall, .inl rfl⟩,
    hc.tokens_after_subset hx, ?_⟩
  · rw [List.append_nil]
    exact hc.text_eq hall
  -- a separating tag opens and closes nothing, so what is open at the end is open in this branch
  · have halternative : x.token.tag.depthAfter 0 = 0 := by
      rw [Tag.isAlternative_iff.1 (hit_of_cutAt hx)]
      rfl
    rw [unclosed_eq_nil_iff offset, unclosed_eq_nil_iff x.token.stop, hafter, ← hall,
      List.map_append, List.map_cons, Tag.depthBehind_append, depthBehind_before hx,
      Tag.depthBehind_cons, halternative]
    exact id

end SliceOf

/-! ### The end of a block -/

/-- Leaving off what a text begins with. -/
theorem Text.dropBytes_size_append (a b : Text) : (a ++ b).dropBytes a.size = b := by
  have hcut := takeBytes_append_dropBytes a.size (a ++ b)
  rw [takeBytes_size_append] at hcut
  exact List.append_cancel_left hcut

/-- **A block in a slice** of a source has the body and the end that it has in the source. -/
theorem SliceOf.scan_eq {offset : Nat} {part source : Text} (hslice : SliceOf offset part 0 source)
    {s : TagSplit} {kind : BlockKind} {path : Text} (h : nextTag part = some s)
    (htag : s.tag = .opening kind path) :
    let behind := source.dropBytes (s.token offset).stop
    (Block.scan kind s.rest).body = (Block.scan kind behind).body ∧
      (Block.scan kind s.rest).close = (Block.scan kind behind).close := by
  intro behind
  obtain ⟨before, after, hsource, rfl, hend⟩ := hslice.exists_append
  have hbehind : behind = s.rest ++ after := by
    have hstop : (s.token (0 + before.size)).stop = (before ++ s.upTo).size := by
      rw [stop_token, Text.size_append, Nat.zero_add]
    calc behind
        = (before ++ s.upTo ++ (s.rest ++ after)).dropBytes (before ++ s.upTo).size := by
          show source.dropBytes _ = _
          rw [hstop, hsource, ← TagSplit.upTo_append_rest h]
          simp only [List.append_assoc]
      _ = s.rest ++ after := Text.dropBytes_size_append ..
  rw [hbehind]
  -- the slice goes up to the end of the source, or else the block is closed within it
  rcases hend with rfl | hopen
  · rw [List.append_nil]
    exact ⟨rfl, rfl⟩
  · rw [Block.scan_append (Block.isClosed_of_unclosed_eq_nil h htag hopen) after]
    exact ⟨rfl, rfl⟩

end Stencil
