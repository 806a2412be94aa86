import Stencil.Proofs.Tag.Nesting
import Stencil.Render.Basic

/-!
# The tags of slices

The renderer works on slices of a source: the body of a block and what is left behind it, and the
branches of a body. A slice is cut out at tags, and no cut makes a tag that was not there before
(`tagsIn_body_subset`, `tagsIn_rest_subset`). So whatever holds of the tags of a source holds of the
tags of every section that the renderer comes to in it:

* `tagsIn_behind_subset`, `tagsIn_sections_subset` — the tags of what is left behind a tag, and of
  the sections to which a block leads, are tags of the text around them;
* `Block.exists_append_rest`, `exists_append_of_splitElse_snd` — what is left behind a block, and
  the other branch of a body, stand at the end of the text.
-/

namespace Stencil

/-- The tags of a text, without the text around them. -/
def tagsIn (t : Text) : List Tag :=
  (tags t).map TagSplit.tag

theorem tagsIn_of_nextTag {t : Text} {s : TagSplit} (h : nextTag t = some s) :
    tagsIn t = s.tag :: tagsIn s.rest := by
  rw [tagsIn, tags_of_nextTag h]
  rfl

theorem tagsIn_of_nextTag_none {t : Text} (h : nextTag t = none) : tagsIn t = [] := by
  rw [tagsIn, tags_of_nextTag_none h]
  rfl

theorem tag_mem_tagsIn {t : Text} {s : TagSplit} (h : nextTag t = some s) : s.tag ∈ tagsIn t := by
  rw [tagsIn_of_nextTag h]
  exact List.mem_cons_self

theorem tagsIn_behind_subset {t : Text} {s : TagSplit} (h : nextTag t = some s) :
    tagsIn s.rest ⊆ tagsIn t := by
  rw [tagsIn_of_nextTag h]
  exact List.subset_cons_self ..

theorem tokens_behind_subset {t : Text} {s : TagSplit} (h : nextTag t = some s) (offset : Nat) :
    tokens (s.token offset).stop s.rest ⊆ tokens offset t := by
  rw [tokens_of_nextTag h]
  exact List.subset_cons_self ..

/-! ### Cuts -/

section Cuts

variable {hit : Tag → Bool} {depth offset : Nat} {t : Text} {c : Cut} {x : TokenCut}

theorem Cut.Agrees.tokens_before_subset (hc : c.Agrees x offset t)
    (hx : cutAt hit depth (tokens offset t) = some x) :
    tokens offset c.before ⊆ tokens offset t := by
  have hall : x.before ++ x.token :: x.after = tokens offset t := all_of_cutAt hx
  rw [hc.tokens_before, ← hall]
  exact List.subset_append_left ..

theorem Cut.Agrees.tokens_after_subset (hc : c.Agrees x offset t)
    (hx : cutAt hit depth (tokens offset t) = some x) :
    tokens x.token.stop c.after ⊆ tokens offset t := by
  have hall : x.before ++ x.token :: x.after = tokens offset t := all_of_cutAt hx
  rw [hc.tokens_after, ← hall]
  intro k hk
  exact List.mem_append_right _ (List.mem_cons_of_mem _ hk)

theorem Cut.Agrees.tagsIn_before (hc : c.Agrees x offset t) :
    tagsIn c.before = x.before.map Token.tag := by
  rw [tagsIn, ← map_tag_tokens offset, hc.tokens_before]

theorem Cut.Agrees.tagsIn_after (hc : c.Agrees x offset t) :
    tagsIn c.after = x.after.map Token.tag := by
  rw [tagsIn, ← map_tag_tokens x.token.stop, hc.tokens_after]

theorem Cut.Agrees.tagsIn_before_subset (hc : c.Agrees x offset t)
    (hx : cutAt hit depth (tokens offset t) = some x) : tagsIn c.before ⊆ tagsIn t := by
  rw [tagsIn, tagsIn, ← map_tag_tokens offset, ← map_tag_tokens offset]
  exact List.map_subset _ (hc.tokens_before_subset hx)

theorem Cut.Agrees.tagsIn_after_subset (hc : c.Agrees x offset t)
    (hx : cutAt hit depth (tokens offset t) = some x) : tagsIn c.after ⊆ tagsIn t := by
  rw [tagsIn, tagsIn, ← map_tag_tokens x.token.stop, ← map_tag_tokens offset]
  exact List.map_subset _ (hc.tokens_after_subset hx)

end Cuts

/-! ### Blocks -/

theorem tagsIn_body_subset (kind : BlockKind) (t : Text) :
    tagsIn (Block.scan kind t).body ⊆ tagsIn t := by
  cases hx : closeAt 0 (tokens 0 t) with
  | none =>
    rw [Block.scan_of_closeAt_none kind hx]
    exact List.Subset.refl _
  | some x =>
    obtain ⟨close, -, -, hc⟩ := Block.scan_of_closeAt kind hx
    exact hc.tagsIn_before_subset hx

theorem tagsIn_rest_subset (kind : BlockKind) (t : Text) :
    tagsIn (Block.scan kind t).rest ⊆ tagsIn t := by
  cases hx : closeAt 0 (tokens 0 t) with
  | none =>
    -- a block that nothing closes leaves no text behind it
    rw [Block.scan_of_closeAt_none kind hx, tagsIn_of_nextTag_none (by rw [nextTag])]
    exact List.nil_subset _
  | some x =>
    obtain ⟨close, -, -, hc⟩ := Block.scan_of_closeAt kind hx
    exact hc.tagsIn_after_subset hx

theorem tagsIn_splitElse_fst_subset (body : Text) : tagsIn (splitElse body).1 ⊆ tagsIn body := by
  cases hx : alternativeAt 0 (tokens 0 body) with
  | none =>
    rw [splitElse_of_alternativeAt_none hx]
    exact List.Subset.refl _
  | some x =>
    obtain ⟨c, hsplit, hc⟩ := splitElse_of_alternativeAt hx
    rw [hsplit]
    exact hc.tagsIn_before_subset hx

theorem tagsIn_splitElse_snd_subset {body other : Text} (h : (splitElse body).2 = some other) :
    tagsIn other ⊆ tagsIn body := by
  obtain ⟨x, hx, hc⟩ := exists_agrees_of_splitElse_snd 0 h
  exact hc.tagsIn_after_subset hx

/-- **The sections of a block** are its body, the first branch of that, or the other one. -/
theorem Block.mem_sections {b : Block} {offset : Nat} {value : Value} {scope : Scope}
    {x : Section} (h : x ∈ b.sections offset value scope) :
    (x.text = b.body ∧ x.offset = offset) ∨
      (x.text = (splitElse b.body).1 ∧ x.offset = offset) ∨
      ((splitElse b.body).2 = some x.text ∧
        x.offset = offset + (b.body.size - x.text.size)) := by
  rcases Block.eq_of_mem_sections h with ⟨_, _, _, _, rfl⟩ | rfl | rfl | ⟨other, hother, rfl⟩
  · exact .inl ⟨rfl, rfl⟩
  · exact .inl ⟨rfl, rfl⟩
  · exact .inr (.inl ⟨rfl, rfl⟩)
  · exact .inr (.inr ⟨hother, rfl⟩)

/-- They have no tags but those of the body. -/
theorem tagsIn_sections_subset {b : Block} {offset : Nat} {value : Value} {scope : Scope}
    {x : Section} (h : x ∈ b.sections offset value scope) : tagsIn x.text ⊆ tagsIn b.body := by
  rcases Block.mem_sections h with ⟨htext, -⟩ | ⟨htext, -⟩ | ⟨hother, -⟩
  · rw [htext]
    exact List.Subset.refl _
  · rw [htext]
    exact tagsIn_splitElse_fst_subset b.body
  · exact tagsIn_splitElse_snd_subset hother

/-! ### Ends of texts -/

/-- What is left behind a block stands at the end of the text. -/
theorem Block.exists_append_rest (kind : BlockKind) (t : Text) :
    ∃ skipped, t = skipped ++ (scan kind t).rest := by
  rw [scan]
  split
  · next close c hc =>
    obtain ⟨lexeme, ht, -⟩ := closeIn?_eq_some (splitsOf_tags t) hc
    exact ⟨_, ht⟩
  · exact ⟨t, (List.append_nil t).symm⟩

/-- The other branch stands at the end of the body. -/
theorem exists_append_of_splitElse_snd {body other : Text} (h : (splitElse body).2 = some other) :
    ∃ skipped, body = skipped ++ other := by
  rw [splitElse] at h
  split at h
  · next c hc =>
    obtain ⟨lexeme, ht, -⟩ := elseIn?_eq_some (splitsOf_tags body) hc
    obtain rfl := Option.some.inj h
    exact ⟨_, ht⟩
  · cases h

end Stencil
