import Stencil.Proofs.Tag.Closing
import Stencil.Proofs.Tag.Cursor

/-!
# What a walk over the tags finds

A walk goes through a source from tag to tag. Where two opening brackets start no tag, it goes on
right behind both, so of brackets that stand in a row it only looks at every other pair: at a tag it
arrives just if the brackets of the row, up to the two of the tag, are even in number. This is all
that keeps a tag from being found (`StandsAt`):

* `even_bracketsAtEnd_before` — in front of a tag that is found stands an even number of brackets.
  A search begins with no brackets behind it, and all that it passes by are pairs of them and single
  characters that are not the first of a pair, which is what the induction goes through;
* `mem_tokens_iff` — a tag is found exactly if it stands in the source in that sense. That none is
  missed comes from `tokens_append`: no tag has a bracket inside, so neither a tag in front nor
  brackets that start none can take away the ones that it begins with;
* `walkFrom_finds` — so the walk with a cursor ends, and finds these tags and no others, in their
  order and without overlaps.
-/

namespace Stencil

/-! ### The walk to the end -/

/-- All the tags of `source` behind the cursor, each with its first byte and the byte behind it. -/
def walkFrom (source : Text) : Nat → Nat → Checked (List (Nat × Tag × Nat))
  | 0, _ => .unfinished
  | fuel + 1, cursor => do
    match ← nextFrom source fuel cursor with
    | none => return []
    | some (start, tag, stop) =>
      let behind ← walkFrom source fuel stop
      return (start, tag, stop) :: behind

/-- **The walk** from a cursor gives the tags of the text behind it, in their places. -/
theorem walkFrom_eq {fuel : Nat} {t : Text} (hfuel : t.length + 1 < fuel) (done : Text) :
    walkFrom (done ++ t) fuel done.size = pure ((tokens done.size t).map Token.item) := by
  induction t using tags.induct generalizing fuel done with
  | case1 t h =>
    obtain ⟨fuel, rfl⟩ : ∃ n, fuel = n + 1 := ⟨fuel - 1, by omega⟩
    rw [walkFrom, nextFrom_eq (by omega), h, tokens_of_nextTag_none h]
    rfl
  | case2 t s h ih =>
    obtain ⟨fuel, rfl⟩ : ∃ n, fuel = n + 1 := ⟨fuel - 1, by omega⟩
    have hlt := rest_lt_of_nextTag h
    -- the walk goes on with the text behind the tag, and what lies before that is done
    have hbehind : walkFrom (done ++ t) fuel (s.token done.size).stop
        = pure ((tokens (s.token done.size).stop s.rest).map Token.item) := by
      rw [append_upTo_append_rest h, stop_token, ← Text.size_append]
      exact ih (by omega) (done ++ s.upTo)
    rw [walkFrom, nextFrom_eq (by omega), h, tokens_of_nextTag h, List.map_cons]
    simp only [Option.map_some, pure_bind, Token.item, tag_token]
    rw [hbehind, pure_bind]

/-! ### Brackets in a row -/

/-- Two brackets in front make no difference to whether the number is even. -/
theorem even_bracketsAtEnd_cons_cons_iff (t : Text) :
    Even (bracketsAtEnd ('\x7b' :: '\x7b' :: t)) ↔ Even (bracketsAtEnd t) := by
  refine ⟨even_bracketsAtEnd_of_cons_cons, ?_⟩
  intro h
  -- two more brackets count only if nothing but brackets follows
  by_cases ht : ∀ d ∈ t, d = '\x7b'
  · have ht' : ∀ d ∈ '\x7b' :: t, d = '\x7b' := by simpa using ht
    rw [bracketsAtEnd_cons_of_forall ht', bracketsAtEnd_cons_of_forall ht, if_pos rfl,
      Nat.add_assoc]
    exact h.add (by decide)
  · have ht : ∃ d ∈ t, d ≠ '\x7b' := by simpa using ht
    obtain ⟨d, hd, hne⟩ := ht
    rwa [bracketsAtEnd_cons_of_exists ⟨d, List.mem_cons_of_mem _ hd, hne⟩,
      bracketsAtEnd_cons_of_exists ⟨d, hd, hne⟩]

/-- A character in front that is not the first of two brackets makes no difference, unless it stands
alone. -/
theorem bracketsAtEnd_cons_of_not_doubled {c : Char} {t : Text}
    (h : ¬ (c = '\x7b' ∧ t.head? = some '\x7b')) (ht : t ≠ []) :
    bracketsAtEnd (c :: t) = bracketsAtEnd t := by
  by_cases hall : ∀ d ∈ t, d = '\x7b'
  · -- behind `c` stands a bracket, so `c` is none
    have hc : c ≠ '\x7b' := by
      intro hc
      obtain ⟨d, t, rfl⟩ := List.exists_cons_of_ne_nil ht
      exact h ⟨hc, congrArg some (hall d List.mem_cons_self)⟩
    rw [bracketsAtEnd_cons_of_forall hall, if_neg hc, Nat.add_zero]
  · exact bracketsAtEnd_cons_of_exists (by simpa using hall) c

/-- The two brackets of a tag are the last ones of their row. -/
theorem bracketsAtEnd_append_brackets (before : Text) :
    bracketsAtEnd (before ++ ['\x7b', '\x7b']) = bracketsAtEnd before + 2 := by
  simp [bracketsAtEnd]

/-- **In front of the first tag** stands an even number of brackets. -/
theorem even_bracketsAtEnd_before {t : Text} {s : TagSplit} (h : nextTag t = some s) :
    Even (bracketsAtEnd s.before) := by
  induction t using nextTag.induct generalizing s with
  | case1 t l hl =>
    rw [nextTag, hl] at h
    obtain rfl := Option.some.inj h
    exact ⟨0, rfl⟩
  | case2 t hl ih =>
    rw [nextTag, hl, Option.map_eq_some_iff] at h
    obtain ⟨s', hs, rfl⟩ := h
    exact (even_bracketsAtEnd_cons_cons_iff s'.before).2 (ih hs)
  | case3 c t hne ih =>
    have hhead := not_doubled hne
    rw [nextTag_cons hhead, Option.map_eq_some_iff] at h
    obtain ⟨s', hs, rfl⟩ := h
    show Even (bracketsAtEnd (c :: s'.before))
    -- the text before the tag begins as `t` does; if it is empty, `t` begins with the tag
    cases hbefore : s'.before with
    | nil =>
      have hc : c ≠ '\x7b' := by
        intro hc
        refine hhead ⟨hc, ?_⟩
        obtain ⟨inner, -, -, -, hlexeme⟩ := Tag.lex?_cons_cons (lex?_of_nextTag hs)
        rw [← source_eq hs, TagSplit.source, hbefore, show s'.lexeme = _ from hlexeme]
        rfl
      rw [bracketsAtEnd_cons_of_forall (by simp), if_neg hc]
      exact ⟨0, rfl⟩
    | cons d before =>
      have hdoubled : ¬ (c = '\x7b' ∧ (d :: before).head? = some '\x7b') := by
        intro hboth
        refine hhead ⟨hboth.1, ?_⟩
        rw [← source_eq hs, TagSplit.source, hbefore]
        exact hboth.2
      rw [bracketsAtEnd_cons_of_not_doubled hdoubled (List.cons_ne_nil d before), ← hbefore]
      exact ih hs
  | case4 => simp [nextTag] at h

/-! ### Tags that are found -/

/-- Whether a tag **stands in a source** from one byte to another: it is read at the first one, and
the brackets in a row that end with the two that it begins with are even in number. -/
def StandsAt (source : Text) (start : Nat) (tag : Tag) (stop : Nat) : Prop :=
  ∃ before ahead l, source = before ++ ahead ∧ before.size = start ∧
    Tag.lex? ahead = some l ∧ l.tag = tag ∧ start + l.lexeme.size = stop ∧
    Even (bracketsAtEnd (before ++ ['\x7b', '\x7b']))

/-- Whatever ends behind a tag ends in brackets that stand behind the tag. -/
theorem bracketsAtEnd_upTo_append {t : Text} {s : TagSplit} (h : nextTag t = some s)
    (other : Text) : bracketsAtEnd (s.upTo ++ other) = bracketsAtEnd other :=
  bracketsAtEnd_of_nextTag (nextTag_upTo_append h other)

/-- A tag that is found **stands in the source**. -/
theorem exists_even_of_mem_tokens {offset : Nat} {t : Text} {k : Token} (h : k ∈ tokens offset t) :
    ∃ before after, t = before ++ (k.lexeme ++ after) ∧ k.start = offset + before.size ∧
      Tag.lex? (k.lexeme ++ after) = some ⟨k.tag, k.lexeme, after⟩ ∧
      Even (bracketsAtEnd before) := by
  induction t using tags.induct generalizing offset with
  | case1 t ht =>
    rw [tokens_of_nextTag_none ht] at h
    cases h
  | case2 t s hs ih =>
    rw [tokens_of_nextTag hs] at h
    rcases List.mem_cons.1 h with rfl | h
    · refine ⟨s.before, s.rest, ?_, rfl, lex?_of_nextTag hs, even_bracketsAtEnd_before hs⟩
      rw [← List.append_assoc]
      exact (source_eq hs).symm
    · obtain ⟨before, after, ht, hstart, hlex, heven⟩ := ih h
      -- the first tag ends in no opening bracket, so behind it the brackets are counted anew
      refine ⟨s.upTo ++ before, after, ?_, ?_, hlex, ?_⟩
      · rw [List.append_assoc, ← ht, TagSplit.upTo_append_rest hs]
      · rw [hstart, stop_token, Text.size_append, Nat.add_assoc]
      · rwa [bracketsAtEnd_upTo_append hs]

/-- **The tags of a source** are those that stand in it, and no others. -/
theorem mem_tokens_iff {source : Text} {start : Nat} {tag : Tag} {stop : Nat} :
    (start, tag, stop) ∈ (tokens 0 source).map Token.item ↔ StandsAt source start tag stop := by
  constructor
  · intro h
    obtain ⟨k, hk, hitem⟩ := List.mem_map.1 h
    obtain ⟨rfl, rfl, rfl⟩ : k.start = start ∧ k.tag = tag ∧ k.stop = stop := by
      simpa [Token.item] using hitem
    obtain ⟨before, after, hsource, hstart, hlex, heven⟩ := exists_even_of_mem_tokens hk
    rw [Nat.zero_add] at hstart
    refine ⟨before, k.lexeme ++ after, _, hsource, hstart.symm, hlex, rfl, rfl, ?_⟩
    rw [bracketsAtEnd_append_brackets]
    exact heven.add (by decide)
  · rintro ⟨before, ahead, l, rfl, rfl, hlex, rfl, rfl, heven⟩
    rw [bracketsAtEnd_append_brackets, Nat.even_add] at heven
    -- the tag is the first one behind the tags of the text before it
    have htokens := tokens_append (heven.2 (by decide)) hlex 0
    rw [htokens, List.map_append, List.map_cons, List.mem_append]
    refine .inr (List.mem_cons.2 (.inl ?_))
    simp [Token.item, Token.stop]

/-- **A walk over the tags** of any source ends. It finds tags one behind the other, without
overlaps: just those that are read at a byte up to which brackets stand in a row in even number,
and of those all. -/
theorem walkFrom_finds (source : Text) :
    let found := (tokens 0 source).map Token.item
    Checked.EndsIn (fun fuel => walkFrom source fuel 0) found ∧
      found.Pairwise (fun x y => x.2.2 ≤ y.1) ∧ (∀ x ∈ found, x.1 < x.2.2) ∧
      ∀ start tag stop, (start, tag, stop) ∈ found ↔ StandsAt source start tag stop := by
  intro found
  refine ⟨⟨source.length + 2, ?_⟩, ?_, ?_, ?_⟩
  · intro fuel hfuel
    exact walkFrom_eq (t := source) (by omega) []
  · exact List.pairwise_map.2 (pairwise_stop_le_start 0 source)
  · intro x hx
    obtain ⟨k, hk, rfl⟩ := List.mem_map.1 hx
    exact start_lt_stop_of_mem_tokens hk
  · intro start tag stop
    exact mem_tokens_iff

/-- Of three brackets in a row the first two start no tag, and then one is left. -/
example : (tokens 0 "\x7b\x7b\x7ba\x7d\x7d\x7b\x7bb\x7d\x7d".toList).map Token.item
    = [(6, .value ['b'], 11)] := by cbv

end Stencil
