import Stencil.Proofs.Tag.OpenEnds

/-!
# Slices that cut no tag

A slice of a source has no tags but those of the source (`SliceOf.tokens_subset`). The renderer cuts
its slices at tags, so there is a converse: a tag of the source either is a tag of the slice, or it
lies outside of the slice, and then no byte of it lies inside (`Uncut`).

What is in front of a tag and what is behind it are such slices (`Cut.Agrees.uncut_before`,
`Cut.Agrees.uncut_after`), and a slice of a slice is one (`Uncut.trans`). All that the renderer
takes is put together from these:

* `Uncut.behind`, `Uncut.behindBlock` — what is left behind a tag, and behind a block;
* `Uncut.body`, `Uncut.of_mem_sections` — the body of a block, and the sections of a body.
-/

namespace Stencil

/-- Whether the text `part`, from byte `offset` on, lies in the text `whole`, from byte `around` on,
and **cuts no tag** of it: each tag of `whole` is a tag of `part`, ends before `part` begins, or
begins where `part` has ended. -/
structure Uncut (offset : Nat) (part : Text) (around : Nat) (whole : Text) : Prop where
  around_le : around ≤ offset
  end_le : offset + part.size ≤ around + whole.size
  sorts : ∀ k ∈ tokens around whole,
    k ∈ tokens offset part ∨ k.stop ≤ offset ∨ offset + part.size ≤ k.start

/-! ### At a cut -/

section Cuts

variable {c : Cut} {x : TokenCut} {offset : Nat} {t : Text} (hc : c.Agrees x offset t)
  (hx : x.all = tokens offset t)
include hc hx

/-- What is in front of a tag at which a text is cut. -/
theorem Cut.Agrees.uncut_before : Uncut offset c.before offset t where
  around_le := Nat.le_refl offset
  end_le := by
    have hsize := congrArg Text.size (hc.text_eq hx)
    rw [Text.size_append, Text.size_append] at hsize
    omega
  sorts := by
    intro k hk
    have hstart : x.token.start = offset + c.before.size := hc.start_eq hx
    have horder := pairwise_stop_le_start offset t
    rw [← hx, TokenCut.all] at hk horder
    obtain ⟨-, hbehind, -⟩ := List.pairwise_append.1 horder
    rcases List.mem_append.1 hk with hk | hk
    · left
      rw [hc.tokens_before]
      exact hk
    · right; right
      rcases List.mem_cons.1 hk with rfl | hk
      · exact hstart.ge
      · -- the tags behind the cut begin where the tag of the cut has ended
        have hle := (List.pairwise_cons.1 hbehind).1 k hk
        have hstop : x.token.start ≤ x.token.stop := Nat.le_add_right ..
        omega

/-- What is behind a tag at which a text is cut. -/
theorem Cut.Agrees.uncut_after : Uncut x.token.stop c.after offset t where
  around_le := by
    have hstop : offset + (t.size - c.after.size) = x.token.stop := hc.stop_eq
    omega
  end_le := hc.place.ge
  sorts := by
    intro k hk
    have horder := pairwise_stop_le_start offset t
    rw [← hx, TokenCut.all] at hk horder
    obtain ⟨-, -, hacross⟩ := List.pairwise_append.1 horder
    rcases List.mem_append.1 hk with hk | hk
    -- the tags in front of the cut end where its tag begins, or before
    · right; left
      have hle := hacross k hk x.token List.mem_cons_self
      have hstop : x.token.start ≤ x.token.stop := Nat.le_add_right ..
      omega
    · rcases List.mem_cons.1 hk with rfl | hk
      · exact .inr (.inl (Nat.le_refl _))
      · left
        rw [hc.tokens_after]
        exact hk

end Cuts

namespace Uncut

theorem refl (offset : Nat) (t : Text) : Uncut offset t offset t where
  around_le := Nat.le_refl offset
  end_le := Nat.le_refl _
  sorts := fun _ hk => .inl hk

/-- Nothing is left behind the end of a text. -/
theorem nil (offset : Nat) (t : Text) : Uncut (offset + t.size) [] offset t where
  around_le := Nat.le_add_right ..
  end_le := Nat.le_refl _
  sorts := by
    intro k hk
    obtain ⟨before, after, ht, hstart, -⟩ := exists_parts_of_mem_tokens hk
    have hsize := congrArg Text.size ht
    rw [Text.size_append, Text.size_append] at hsize
    right; left
    rw [Token.stop, hstart]
    omega

/-- A slice of a slice. -/
theorem trans {o p q : Nat} {a b c : Text} (h : Uncut o a p b) (h' : Uncut p b q c) :
    Uncut o a q c where
  around_le := h'.around_le.trans h.around_le
  end_le := h.end_le.trans h'.end_le
  sorts := by
    intro k hk
    rcases h'.sorts k hk with hk | hk | hk
    · exact h.sorts k hk
    · exact .inr (.inl (hk.trans h.around_le))
    · exact .inr (.inr (h.end_le.trans hk))

/-- Where a slice has no tags, no byte of a tag lies in it. -/
theorem outside_of_nextTag_none {offset around : Nat} {part whole : Text} {k : Token}
    (h : Uncut offset part around whole) (hnone : nextTag part = none)
    (hk : k ∈ tokens around whole) : k.stop ≤ offset ∨ offset + part.size ≤ k.start := by
  have hsorts := h.sorts k hk
  rw [tokens_of_nextTag_none hnone] at hsorts
  exact hsorts.resolve_left List.not_mem_nil

/-- **Up to the end of its first tag**, no byte of another tag lies in a slice. -/
theorem eq_token_of_start_lt {offset around : Nat} {part whole : Text} {s : TagSplit} {k : Token}
    (h : Uncut offset part around whole) (hs : nextTag part = some s)
    (hk : k ∈ tokens around whole) (hstop : offset < k.stop)
    (hstart : k.start < (s.token offset).stop) : s.token offset = k := by
  have hplace : offset + part.size = (s.token offset).stop + s.rest.size :=
    (Cut.Agrees.head hs offset).place
  rcases h.sorts k hk with hk | hk | hk
  · have horder := pairwise_stop_le_start offset part
    rw [tokens_of_nextTag hs] at hk horder
    rcases List.mem_cons.1 hk with rfl | hk
    · rfl
    · -- the tags behind the first one begin where it has ended
      have hlater := (List.pairwise_cons.1 horder).1 k hk
      omega
  · omega
  · omega

/-! ### The slices of the renderer -/

section Behind

variable {t : Text} {s : TagSplit} (h : nextTag t = some s) (offset : Nat)
include h

/-- What is left behind a tag. -/
theorem behind : Uncut (s.token offset).stop s.rest offset t :=
  (Cut.Agrees.head h offset).uncut_after (tokens_of_nextTag h offset).symm

/-- The body of a block. -/
theorem body (kind : BlockKind) :
    Uncut (s.token offset).stop (Block.scan kind s.rest).body offset t := by
  refine trans ?_ (behind h offset)
  cases hx : closeAt 0 (tokens (s.token offset).stop s.rest) with
  | none =>
    rw [Block.scan_of_closeAt_none kind hx]
    exact refl _ s.rest
  | some x =>
    obtain ⟨close, -, -, hc⟩ := Block.scan_of_closeAt kind hx
    exact hc.uncut_before (all_of_cutAt hx)

/-- What is left behind a block. -/
theorem behindBlock (kind : BlockKind) :
    Uncut ((s.token offset).stop + (s.rest.size - (Block.scan kind s.rest).rest.size))
      (Block.scan kind s.rest).rest offset t := by
  refine trans ?_ (behind h offset)
  cases hx : closeAt 0 (tokens (s.token offset).stop s.rest) with
  | none =>
    rw [Block.scan_of_closeAt_none kind hx]
    exact nil _ s.rest
  | some x =>
    obtain ⟨close, -, -, hc⟩ := Block.scan_of_closeAt kind hx
    have hstop : (s.token offset).stop + (s.rest.size - (Block.scan kind s.rest).rest.size)
        = x.token.stop := hc.stop_eq
    rw [hstop]
    exact hc.uncut_after (all_of_cutAt hx)

end Behind

/-- The first branch of a body. -/
theorem splitElse_fst (offset : Nat) (t : Text) : Uncut offset (splitElse t).1 offset t := by
  cases hx : alternativeAt 0 (tokens offset t) with
  | none =>
    rw [splitElse_of_alternativeAt_none hx]
    exact refl offset t
  | some x =>
    obtain ⟨c, hsplit, hc⟩ := splitElse_of_alternativeAt hx
    rw [hsplit]
    exact hc.uncut_before (all_of_cutAt hx)

/-- The other branch of a body. -/
theorem splitElse_snd (offset : Nat) {t other : Text} (h : (splitElse t).2 = some other) :
    Uncut (offset + (t.size - other.size)) other offset t := by
  obtain ⟨x, hx, hc⟩ := exists_agrees_of_splitElse_snd offset h
  have hstop : offset + (t.size - other.size) = x.token.stop := hc.stop_eq
  rw [hstop]
  exact hc.uncut_after (all_of_cutAt hx)

/-- The sections of a block. -/
theorem of_mem_sections {b : Block} {offset : Nat} {value : Value} {scope : Scope} {x : Section}
    (h : x ∈ b.sections offset value scope) : Uncut x.offset x.text offset b.body := by
  rcases Block.mem_sections h with ⟨htext, hoffset⟩ | ⟨htext, hoffset⟩ | ⟨hother, hoffset⟩
  · rw [htext, hoffset]
    exact refl offset b.body
  · rw [htext, hoffset]
    exact splitElse_fst offset b.body
  · rw [hoffset]
    exact splitElse_snd offset hother

end Uncut

end Stencil
