import Stencil.Tag.Stream

/-!
# Tags are local

Which tag stands at a place of a text is settled by the text up to its closing brackets, and so is
the search for the first tag. A text can therefore be cut at any of its tags without changing which
tags the two parts have:

* `nextTag_upTo_append` — the first tag of a text stays the first one whatever follows it;
* `nextTag_before` — the text before the first tag has no tag when it stands alone.

Both rest on the same observation. Two opening brackets that start no tag do so because of what
stands between them and the first closing brackets; in front of a tag there are closing brackets to
come, those of the tag, so nothing behind the tag has a say. Cutting the text *before* the tag can
only take the closing brackets away, and brackets that are not closed start no tag either.
-/

namespace Stencil

/-! ### The closing brackets -/

/-- How a recursion on doubled characters says that a text does not begin with two of them. -/
theorem not_doubled {b c : Char} {t : Text} (h : ∀ t', c = b → t = b :: t' → False) :
    ¬ (c = b ∧ t.head? = some b) := by
  rintro ⟨rfl, ht⟩
  obtain ⟨t', rfl⟩ := List.head?_eq_some_iff.1 ht
  exact h t' rfl rfl

theorem cutAtClose?_cons {c : Char} {t : Text} (h : ¬ (c = '\x7d' ∧ t.head? = some '\x7d')) :
    cutAtClose? (c :: t) = (cutAtClose? t).map fun cut => (c :: cut.1, cut.2) := by
  rw [cutAtClose?]
  rintro t' rfl rfl
  exact h ⟨rfl, rfl⟩

/-- The text before the closing brackets is found whatever follows them. -/
theorem cutAtClose?_append_close {t inner rest : Text} (h : cutAtClose? t = some (inner, rest))
    (other : Text) : cutAtClose? (inner ++ '\x7d' :: '\x7d' :: other) = some (inner, other) := by
  induction t using cutAtClose?.induct generalizing inner rest with
  | case1 t =>
    rw [cutAtClose?, Option.some.injEq, Prod.mk.injEq] at h
    obtain ⟨rfl, -⟩ := h
    rfl
  | case2 c t hne ih =>
    have hhead := not_doubled hne
    rw [cutAtClose?_cons hhead, Option.map_eq_some_iff] at h
    obtain ⟨⟨i, r⟩, hcut, heq⟩ := h
    obtain ⟨rfl, rfl⟩ := Prod.mk.injEq .. ▸ heq
    rw [List.cons_append, cutAtClose?_cons, ih hcut, Option.map_some]
    -- `t` begins with the same character as the text in which `rest` is replaced
    rw [cutAtClose?_eq_some hcut] at hhead
    cases i <;> exact hhead
  | case3 => simp [cutAtClose?] at h

/-- Closing brackets that are found stay the first ones when text is added behind. -/
theorem cutAtClose?_append {t inner rest : Text} (h : cutAtClose? t = some (inner, rest))
    (more : Text) : cutAtClose? (t ++ more) = some (inner, rest ++ more) := by
  rw [cutAtClose?_eq_some h, List.append_assoc]
  exact cutAtClose?_append_close h _

/-- Any text with two closing brackets next to each other can be cut at closing brackets. -/
theorem exists_cutAtClose? (before after : Text) :
    ∃ cut, cutAtClose? (before ++ '\x7d' :: '\x7d' :: after) = some cut := by
  induction before with
  | nil => exact ⟨([], after), rfl⟩
  | cons c before ih =>
    obtain ⟨cut, hcut⟩ := ih
    by_cases hc : c = '\x7d' ∧ (before ++ '\x7d' :: '\x7d' :: after).head? = some '\x7d'
    · obtain ⟨rfl, hhead⟩ := hc
      obtain ⟨t, ht⟩ := List.head?_eq_some_iff.1 hhead
      exact ⟨([], t), by rw [List.cons_append, ht]; rfl⟩
    · exact ⟨(c :: cut.1, cut.2), by rw [List.cons_append, cutAtClose?_cons hc, hcut]; rfl⟩

/-! ### The tag at the front -/

/-- A tag is read whatever follows it. -/
theorem Tag.lex?_lexeme_append {t : Text} {l : Lexed} (h : Tag.lex? t = some l) (other : Text) :
    Tag.lex? (l.lexeme ++ other) = some ⟨l.tag, l.lexeme, other⟩ := by
  obtain ⟨inner, hcut, htag, -, hlexeme⟩ := Tag.lex?_cons_cons h
  have hshape : l.lexeme ++ other
      = '\x7b' :: '\x7b' :: (inner ++ '\x7d' :: '\x7d' :: other) := by
    rw [hlexeme]
    simp
  rw [hshape, Tag.lex?, cutAtClose?_append_close hcut other]
  simp only [Option.bind_eq_bind, Option.bind_some, htag, hlexeme]
  rfl

/-- Two opening brackets start no tag if they start none when more text follows, provided they are
closed at all. -/
theorem Tag.lex?_eq_none_of_append {t : Text} (more : Text)
    (h : Tag.lex? ('\x7b' :: '\x7b' :: (t ++ more)) = none) :
    Tag.lex? ('\x7b' :: '\x7b' :: t) = none := by
  cases hlex : Tag.lex? ('\x7b' :: '\x7b' :: t) with
  | none => rfl
  | some l =>
    have hmore := Tag.lex?_lexeme_append hlex (l.rest ++ more)
    rw [← List.append_assoc, Tag.lexeme_append_rest hlex] at hmore
    rw [List.cons_append, List.cons_append, h] at hmore
    cases hmore

/-- Two opening brackets that are closed in `t` start no tag, whatever follows `t`, if they start
none by themselves. -/
theorem Tag.lex?_append_eq_none {t inner rest : Text} (hcut : cutAtClose? t = some (inner, rest))
    (h : Tag.lex? ('\x7b' :: '\x7b' :: t) = none) (more : Text) :
    Tag.lex? ('\x7b' :: '\x7b' :: (t ++ more)) = none := by
  rw [Tag.lex?, hcut] at h
  rw [Tag.lex?, cutAtClose?_append hcut more]
  cases htag : Tag.classify? (Text.trim Text.isBlank inner) with
  | none => simp [htag]
  | some tag => simp [htag] at h

/-! ### The first tag -/

theorem nextTag_cons {c : Char} {t : Text} (h : ¬ (c = '\x7b' ∧ t.head? = some '\x7b')) :
    nextTag (c :: t) = (nextTag t).map (TagSplit.push c) := by
  rw [nextTag]
  rintro t' rfl rfl
  exact h ⟨rfl, rfl⟩

/-- A tag at the front is the first one. -/
theorem nextTag_of_lex? {t : Text} {l : Lexed} (h : Tag.lex? t = some l) :
    nextTag t = some ⟨[], l.tag, l.lexeme, l.rest⟩ := by
  obtain ⟨inner, -, -, ht, -⟩ := Tag.lex?_cons_cons h
  rw [ht] at h ⊢
  rw [nextTag, h]

/-- A tag brings closing brackets with it. -/
theorem exists_cutAtClose?_upTo {t : Text} {s : TagSplit} (h : nextTag t = some s) :
    ∃ cut, cutAtClose? s.upTo = some cut := by
  obtain ⟨inner, -, -, -, hlexeme⟩ := Tag.lex?_cons_cons (lex?_of_nextTag h)
  obtain ⟨cut, hcut⟩ := exists_cutAtClose? (s.before ++ '\x7b' :: '\x7b' :: inner) []
  refine ⟨cut, ?_⟩
  rw [TagSplit.upTo, show s.lexeme = _ from hlexeme, ← hcut]
  simp

theorem TagSplit.upTo_append_rest {t : Text} {s : TagSplit} (h : nextTag t = some s) :
    s.upTo ++ s.rest = t :=
  source_eq h

/-- A text and the part of it up to its first tag begin with the same character. -/
theorem head?_upTo_append {t : Text} {s : TagSplit} (h : nextTag t = some s) (other : Text) :
    (s.upTo ++ other).head? = t.head? := by
  obtain ⟨inner, -, -, -, hlexeme⟩ := Tag.lex?_cons_cons (lex?_of_nextTag h)
  have hne : s.upTo ≠ [] := by
    rw [TagSplit.upTo, show s.lexeme = _ from hlexeme]
    simp
  obtain ⟨c, r, hupTo⟩ := List.exists_cons_of_ne_nil hne
  rw [← TagSplit.upTo_append_rest h, hupTo]
  rfl

/-- **The first tag of a text stays the first one whatever follows it.** -/
theorem nextTag_upTo_append {t : Text} {s : TagSplit} (h : nextTag t = some s) (other : Text) :
    nextTag (s.upTo ++ other) = some { s with rest := other } := by
  induction t using nextTag.induct generalizing s with
  | case1 t l hl =>
    rw [nextTag, hl] at h
    obtain rfl := Option.some.inj h
    exact nextTag_of_lex? (Tag.lex?_lexeme_append hl other)
  | case2 t hl ih =>
    rw [nextTag, hl, Option.map_eq_some_iff] at h
    obtain ⟨s', hs, rfl⟩ := h
    -- the brackets in front are closed by the tag at the latest, so what follows it is not read
    obtain ⟨⟨inner, r⟩, hcut⟩ := exists_cutAtClose?_upTo hs
    have hnone : Tag.lex? ('\x7b' :: '\x7b' :: s'.upTo) = none := by
      apply Tag.lex?_eq_none_of_append s'.rest
      rw [TagSplit.upTo_append_rest hs]
      exact hl
    have hlex := Tag.lex?_append_eq_none hcut hnone other
    change nextTag ('\x7b' :: '\x7b' :: (s'.upTo ++ other)) = _
    rw [nextTag, hlex, ih hs]
    rfl
  | case3 c t hne ih =>
    have hhead := not_doubled hne
    rw [nextTag_cons hhead, Option.map_eq_some_iff] at h
    obtain ⟨s', hs, rfl⟩ := h
    change nextTag (c :: (s'.upTo ++ other)) = _
    rw [nextTag_cons (by rwa [head?_upTo_append hs]), ih hs]
    rfl
  | case4 => simp [nextTag] at h

/-- **The text before the first tag has no tag** when it stands alone. -/
theorem nextTag_before {t : Text} {s : TagSplit} (h : nextTag t = some s) :
    nextTag s.before = none := by
  induction t using nextTag.induct generalizing s with
  | case1 t l hl =>
    rw [nextTag, hl] at h
    obtain rfl := Option.some.inj h
    rfl
  | case2 t hl ih =>
    rw [nextTag, hl, Option.map_eq_some_iff] at h
    obtain ⟨s', hs, rfl⟩ := h
    -- a tag in what is left would have been one in the whole text
    have hlex : Tag.lex? ('\x7b' :: '\x7b' :: s'.before) = none := by
      apply Tag.lex?_eq_none_of_append (s'.lexeme ++ s'.rest)
      rw [← List.append_assoc, ← TagSplit.upTo, TagSplit.upTo_append_rest hs]
      exact hl
    change nextTag ('\x7b' :: '\x7b' :: s'.before) = none
    rw [nextTag, hlex, ih hs]
    rfl
  | case3 c t hne ih =>
    have hhead := not_doubled hne
    rw [nextTag_cons hhead, Option.map_eq_some_iff] at h
    obtain ⟨s', hs, rfl⟩ := h
    change nextTag (c :: s'.before) = none
    rw [nextTag_cons, ih hs]
    · rfl
    · -- if the text before the tag goes on at all, it goes on as `t` does
      rintro ⟨hc, hb⟩
      apply hhead
      refine ⟨hc, ?_⟩
      obtain ⟨b, hb⟩ := List.head?_eq_some_iff.1 hb
      rw [← source_eq hs, TagSplit.source, hb]
      rfl
  | case4 => simp [nextTag] at h

end Stencil
