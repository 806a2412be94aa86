import Stencil.Tag.Basic

/-!
# Finding tags

`Tag.lex?` reads the tag at the front of a text, and `nextTag` finds the first tag anywhere in it.
Two opening brackets that do not start a tag are text, and the search goes on right behind them.

* `lexeme_append_rest` — reading a tag splits the text and loses nothing;
* `source_eq` — so does finding one;
* `rest_lt_of_nextTag` — what follows a tag is shorter than the text, which is why every walk over
  the tags of a text ends.
-/

namespace Stencil

/-! ### The tag at the front -/

/-- The text around the first two closing brackets. -/
def cutAtClose? : Text → Option (Text × Text)
  | '\x7d' :: '\x7d' :: t => some ([], t)
  | c :: t => (cutAtClose? t).map fun cut => (c :: cut.1, cut.2)
  | [] => none

theorem cutAtClose?_eq_some {t inner rest : Text} (h : cutAtClose? t = some (inner, rest)) :
    t = inner ++ '\x7d' :: '\x7d' :: rest := by
  induction t using cutAtClose?.induct generalizing inner rest with
  | case1 t =>
    simp only [cutAtClose?, Option.some.injEq, Prod.mk.injEq] at h
    obtain ⟨rfl, rfl⟩ := h
    rfl
  | case2 c t hne ih =>
    rw [cutAtClose?, Option.map_eq_some_iff] at h
    · obtain ⟨⟨i, r⟩, hcut, heq⟩ := h
      obtain ⟨rfl, rfl⟩ := Prod.mk.injEq .. ▸ heq
      rw [ih hcut, List.cons_append]
    · exact hne
  | case3 => simp [cutAtClose?] at h

/-- A tag at the front of a text, with its own text and what follows it. -/
structure Lexed where
  tag : Tag
  /-- The text of the tag, with its brackets. -/
  lexeme : Text
  rest : Text
  deriving Repr

/-- Reads the tag at the front of a text, if there is one. -/
def Tag.lex? : Text → Option Lexed
  | '\x7b' :: '\x7b' :: t => do
    let (inner, rest) ← cutAtClose? t
    let tag ← Tag.classify? (Text.trim Text.isBlank inner)
    return ⟨tag, '\x7b' :: '\x7b' :: inner ++ ['\x7d', '\x7d'], rest⟩
  | _ => none

theorem Tag.lex?_cons_cons {t : Text} {l : Lexed} (h : Tag.lex? t = some l) :
    ∃ inner, cutAtClose? (t.drop 2) = some (inner, l.rest) ∧
      Tag.classify? (Text.trim Text.isBlank inner) = some l.tag ∧
      t = '\x7b' :: '\x7b' :: t.drop 2 ∧
      l.lexeme = '\x7b' :: '\x7b' :: inner ++ ['\x7d', '\x7d'] := by
  unfold Tag.lex? at h
  split at h
  · next t =>
    -- brackets that are never closed, and an inside that means nothing, make no tag
    cases hcut : cutAtClose? t with
    | none => simp [hcut] at h
    | some cut =>
      obtain ⟨inner, rest⟩ := cut
      cases htag : Tag.classify? (Text.trim Text.isBlank inner) with
      | none => simp [hcut, htag] at h
      | some tag =>
        simp only [hcut, htag, Option.bind_eq_bind, Option.bind_some, Option.pure_def,
          Option.some.injEq] at h
        subst h
        exact ⟨inner, hcut, htag, rfl, rfl⟩
  · cases h

theorem Tag.lexeme_append_rest {t : Text} {l : Lexed} (h : Tag.lex? t = some l) :
    l.lexeme ++ l.rest = t := by
  obtain ⟨inner, hcut, -, ht, hlexeme⟩ := Tag.lex?_cons_cons h
  have := cutAtClose?_eq_some hcut
  rw [ht, this, hlexeme]
  simp

/-! ### The first tag of a text -/

/-- A **text split at its first tag**. -/
structure TagSplit where
  /-- The text before the tag, in which there is no other. -/
  before : Text
  tag : Tag
  /-- The text of the tag, with its brackets. -/
  lexeme : Text
  /-- The text after the tag. -/
  rest : Text
  deriving Repr

namespace TagSplit

/-- The text that was split. -/
def source (s : TagSplit) : Text :=
  s.before ++ s.lexeme ++ s.rest

/-- The text up to the end of the tag. -/
def upTo (s : TagSplit) : Text :=
  s.before ++ s.lexeme

/-- The split of a text that has `c` in front. -/
def push (c : Char) (s : TagSplit) : TagSplit :=
  { s with before := c :: s.before }

end TagSplit

/-- Splits a text at its first tag; `none` if it has no tag. -/
def nextTag : Text → Option TagSplit
  | '\x7b' :: '\x7b' :: t =>
    match Tag.lex? ('\x7b' :: '\x7b' :: t) with
    | some l => some ⟨[], l.tag, l.lexeme, l.rest⟩
    | none => (nextTag t).map fun s => (s.push '\x7b').push '\x7b'
  | c :: t => (nextTag t).map (TagSplit.push c)
  | [] => none

theorem source_eq {t : Text} {s : TagSplit} (h : nextTag t = some s) : s.source = t := by
  -- a tag at the head, brackets that begin none, or a character on the way
  induction t using nextTag.induct generalizing s with
  | case1 t l hl =>
    rw [nextTag, hl] at h
    obtain rfl := Option.some.inj h
    simpa [TagSplit.source] using Tag.lexeme_append_rest hl
  | case2 t hl ih =>
    rw [nextTag, hl, Option.map_eq_some_iff] at h
    obtain ⟨s', hs, rfl⟩ := h
    have := ih hs
    simp_all [TagSplit.source, TagSplit.push]
  | case3 c t hne ih =>
    rw [nextTag, Option.map_eq_some_iff] at h
    · obtain ⟨s', hs, rfl⟩ := h
      have := ih hs
      simp_all [TagSplit.source, TagSplit.push]
    · exact hne
  | case4 => simp [nextTag] at h

theorem lex?_of_nextTag {t : Text} {s : TagSplit} (h : nextTag t = some s) :
    Tag.lex? (s.lexeme ++ s.rest) = some ⟨s.tag, s.lexeme, s.rest⟩ := by
  induction t using nextTag.induct generalizing s with
  | case1 t l hl =>
    rw [nextTag, hl] at h
    obtain rfl := Option.some.inj h
    rw [Tag.lexeme_append_rest hl, hl]
  | case2 t hl ih =>
    rw [nextTag, hl, Option.map_eq_some_iff] at h
    obtain ⟨s', hs, rfl⟩ := h
    simpa [TagSplit.push] using ih hs
  | case3 c t hne ih =>
    rw [nextTag, Option.map_eq_some_iff] at h
    · obtain ⟨s', hs, rfl⟩ := h
      simpa [TagSplit.push] using ih hs
    · exact hne
  | case4 => simp [nextTag] at h

/-- A tag has four brackets at least, so what follows it is shorter than the text. -/
theorem rest_lt_of_nextTag {t : Text} {s : TagSplit} (h : nextTag t = some s) :
    s.rest.length < t.length := by
  obtain ⟨inner, -, -, -, hlexeme⟩ := Tag.lex?_cons_cons (lex?_of_nextTag h)
  have hlength : 0 < s.lexeme.length := by
    rw [show s.lexeme = _ from hlexeme]
    simp
  rw [← source_eq h]
  simp only [TagSplit.source, List.length_append]
  omega

end Stencil
