import Stencil.Proofs.Tag.Walk

/-!
# Cutting a source at one of its tags

A source can be cut at any of its tags, not only at the first one. The text before the tag and the
text behind it then have just the tags that the source has before that tag and behind it
(`exists_parts_of_mem_tokens`), so a walk over the source falls into a walk over each of them:

* `map_item_tokens_add` — the tags of a text further on in the source are those of the text, moved;
* `walkFrom_cut` — so whoever cuts a source at its tags, or goes on with the walk behind one of
  them, neither makes a tag, nor loses one, nor changes one.
-/

namespace Stencil

/-! ### Places that are moved -/

/-- A tag that a walk has found, when `n` bytes are put in front of the source. -/
def movedItem (n : Nat) (x : Nat × Tag × Nat) : Nat × Tag × Nat :=
  (n + x.1, x.2.1, n + x.2.2)

/-- **Behind `n` bytes** a text has the same tags, moved by so many. -/
theorem map_item_tokens_add (n offset : Nat) (t : Text) :
    (tokens (n + offset) t).map Token.item
      = ((tokens offset t).map Token.item).map (movedItem n) := by
  induction t using tags.induct generalizing offset with
  | case1 t h =>
    rw [tokens_of_nextTag_none h, tokens_of_nextTag_none h]
    rfl
  | case2 t s h ih =>
    -- both walks meet the same tag, and go on where it ends
    have hitem : (s.token (n + offset)).item = movedItem n (s.token offset).item := by
      simp only [Token.item, Token.stop, TagSplit.token, movedItem, Nat.add_assoc]
    have hstop : (s.token (n + offset)).stop = n + (s.token offset).stop := by
      rw [stop_token, stop_token, Nat.add_assoc]
    calc (tokens (n + offset) t).map Token.item
        = (s.token (n + offset)).item
            :: (tokens (n + (s.token offset).stop) s.rest).map Token.item := by
          rw [tokens_of_nextTag h, List.map_cons, hstop]
      _ = movedItem n (s.token offset).item
            :: ((tokens (s.token offset).stop s.rest).map Token.item).map (movedItem n) := by
          rw [hitem, ih]
      _ = ((tokens offset t).map Token.item).map (movedItem n) := by
          rw [tokens_of_nextTag h, List.map_cons, List.map_cons]

/-! ### The walk -/

/-- **Behind any part of a source** a walk finds the tags of the rest. -/
theorem walkFrom_behind (front behind : Text) {cursor : Nat} (hcursor : cursor ≤ front.size) :
    Checked.EndsIn
      (fun fuel => Checked.seek (front ++ behind) cursor front.size
        >>= walkFrom (front ++ behind) fuel)
      ((tokens front.size behind).map Token.item) := by
  refine ⟨behind.length + 2, ?_⟩
  intro fuel hfuel
  have hinside : front.size ≤ (front ++ behind).size := by
    rw [Text.size_append]
    exact Nat.le_add_right _ _
  show Checked.seek (front ++ behind) cursor front.size >>= walkFrom (front ++ behind) fuel = _
  rw [Checked.seek_eq_pure hcursor hinside, pure_bind]
  exact walkFrom_eq (by omega) front

/-- **A source can be cut at any of its tags.** The slices before the tag and behind it can be
taken, and the walk over the source finds what the walk over the slice before the tag finds, then
the tag, and then what the walk over the slice behind it finds, moved to where that slice begins. A
walk over the whole source that seeks the end of the tag, from wherever it is before that, goes on
with these last tags too. -/
theorem walkFrom_cut (source : Text) :
    let found (t : Text) := (tokens 0 t).map Token.item
    (∀ t, Checked.EndsIn (fun fuel => walkFrom t fuel 0) (found t)) ∧
      ∀ start tag stop, (start, tag, stop) ∈ found source →
        ∃ front behind, Checked.slice source 0 start = pure front ∧
          Checked.slice source stop source.size = pure behind ∧
          found source
            = found front ++ (start, tag, stop) :: (found behind).map (movedItem stop) ∧
          ∀ cursor ≤ stop,
            Checked.EndsIn (fun fuel => Checked.seek source cursor stop >>= walkFrom source fuel)
              ((found behind).map (movedItem stop)) := by
  intro found
  refine ⟨?_, ?_⟩
  · intro t
    exact ⟨t.length + 2, fun fuel hfuel => walkFrom_eq (t := t) (by omega) []⟩
  · intro start tag stop hmem
    obtain ⟨k, hk, hitem⟩ := List.mem_map.1 hmem
    obtain ⟨rfl, rfl, rfl⟩ : k.start = start ∧ k.tag = tag ∧ k.stop = stop := by
      simpa [Token.item] using hitem
    obtain ⟨front, behind, hsource, hstart, -, htokens, -⟩ := exists_parts_of_mem_tokens hk
    rw [Nat.zero_add] at hstart
    -- what is behind the tag begins where the tag ends
    have hstop : k.stop = Text.size (front ++ k.lexeme) := by
      rw [Token.stop, hstart, Text.size_append]
    have hmoved : (tokens k.stop behind).map Token.item
        = (found behind).map (movedItem k.stop) :=
      map_item_tokens_add k.stop 0 behind
    refine ⟨front, behind, ?_, ?_, ?_, ?_⟩
    · refine Checked.slice_eq_pure [] front (k.lexeme ++ behind) ?_ rfl ?_
      · rw [hsource, List.nil_append, List.append_assoc]
      · rw [hstart, Text.size_nil, Nat.zero_add]
    · rw [hstop, hsource]
      exact Checked.slice_behind _ behind
    · rw [← hmoved]
      change (tokens 0 source).map Token.item = _
      rw [htokens, List.map_append, List.map_cons]
      rfl
    · rw [← hmoved, hstop, hsource]
      exact fun cursor hcursor => walkFrom_behind (front ++ k.lexeme) behind hcursor

/-- A source in which brackets that start no tag stand before a tag, and right before another. -/
def strayBrackets : Text :=
  "\x7b\x7b#if a\x7d\x7d\x7b\x7b b \x7b\x7bc\x7d\x7d\x7b\x7b\x7b\x7b/if\x7d\x7d".toList

/-- Cut at its second tag, it leaves brackets in front that nothing closes any more. -/
theorem walkFrom_cut_strayBrackets :
    let found (t : Text) := (tokens 0 t).map Token.item
    (14, .value ['c'], 19) ∈ found strayBrackets ∧
      ∃ front behind, Checked.slice strayBrackets 0 14 = pure front ∧
        Checked.slice strayBrackets 19 strayBrackets.size = pure behind ∧
        found strayBrackets
          = found front ++ (14, .value ['c'], 19) :: (found behind).map (movedItem 19) ∧
        ∀ cursor ≤ 19, Checked.EndsIn
          (fun fuel => Checked.seek strayBrackets cursor 19 >>= walkFrom strayBrackets fuel)
          ((found behind).map (movedItem 19)) := by
  intro found
  have hfound : (tokens 0 strayBrackets).map Token.item
      = [(0, .opening .cond ['a'], 9), (14, .value ['c'], 19), (21, .closing .cond, 28)] := by
    decide +kernel
  have hmem : (14, .value ['c'], 19) ∈ found strayBrackets := by
    show _ ∈ (tokens 0 strayBrackets).map Token.item
    rw [hfound]
    exact List.mem_cons_of_mem _ List.mem_cons_self
  exact ⟨hmem, (walkFrom_cut strayBrackets).2 _ _ _ hmem⟩

end Stencil
