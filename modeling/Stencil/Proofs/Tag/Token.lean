import Stencil.Proofs.Tag.Locality
import Stencil.Text.Utf8

/-!
# Tags in their places

The tags of a text as tokens: each with the text that stands before it and with the byte at which it
begins in the source. A token says where it is by itself, so a part of a list of tokens needs no
offset, and cutting a text at a tag cuts its list of tokens (`tokens_upTo_append`,
`tokens_before`, `exists_parts_of_mem_tokens`).

A text is told by its tokens and the text behind the last of them (`lastText`, `eq_flatMap_text`).
Its tokens do not overlap, so they stand in the order of their places (`pairwise_stop_le_start`,
`inOrder_tokens`).
-/

namespace Stencil

/-- A **tag in its place**. -/
structure Token where
  /-- The text between the tag before and this one. -/
  before : Text
  tag : Tag
  /-- The text of the tag, with its brackets. -/
  lexeme : Text
  /-- The byte of the source at which the tag begins. -/
  start : Nat
  deriving DecidableEq, Repr

/-- The byte behind a tag. -/
def Token.stop (k : Token) : Nat :=
  k.start + k.lexeme.size

/-- The tag at which a text is split, when the text begins at byte `offset` of the source. -/
def TagSplit.token (s : TagSplit) (offset : Nat) : Token :=
  ⟨s.before, s.tag, s.lexeme, offset + s.before.size⟩

@[simp] theorem tag_token (s : TagSplit) (offset : Nat) : (s.token offset).tag = s.tag := rfl

/-- The places of tags, of which the text begins at byte `offset`. -/
def tokensOf (offset : Nat) : List TagSplit → List Token
  | [] => []
  | s :: stream => s.token offset :: tokensOf (s.token offset).stop stream

/-- A token has the tag that it is the place of. -/
theorem exists_of_mem_tokensOf {offset : Nat} {stream : List TagSplit} {k : Token}
    (h : k ∈ tokensOf offset stream) : ∃ s ∈ stream, s.tag = k.tag := by
  induction stream generalizing offset with
  | nil => cases h
  | cons s stream ih =>
    rcases List.mem_cons.1 h with rfl | h
    · exact ⟨s, List.mem_cons_self, rfl⟩
    · obtain ⟨s', hs', htag⟩ := ih h
      exact ⟨s', List.mem_cons_of_mem _ hs', htag⟩

theorem map_tag_tokensOf (offset : Nat) (stream : List TagSplit) :
    (tokensOf offset stream).map Token.tag = stream.map TagSplit.tag := by
  induction stream generalizing offset with
  | nil => rfl
  | cons s stream ih => rw [tokensOf, List.map_cons, List.map_cons, ih, tag_token]

/-- The tags of a text that begins at byte `offset` of the source, in order. -/
def tokens (offset : Nat) (t : Text) : List Token :=
  tokensOf offset (tags t)

theorem map_tag_tokens (offset : Nat) (t : Text) :
    (tokens offset t).map Token.tag = (tags t).map TagSplit.tag :=
  map_tag_tokensOf offset (tags t)

/-- What is left of the text `t` behind its tags `stream`. -/
def textBehind (t : Text) : List TagSplit → Text
  | [] => t
  | s :: stream => textBehind s.rest stream

/-- The text behind the last tag of a text. -/
def lastText (t : Text) : Text :=
  textBehind t (tags t)

/-! ### Reading a text from its first tag on -/

theorem tokens_of_nextTag {t : Text} {s : TagSplit} (h : nextTag t = some s) (offset : Nat) :
    tokens offset t = s.token offset :: tokens (s.token offset).stop s.rest := by
  rw [tokens, tags_of_nextTag h]
  rfl

theorem tokens_of_nextTag_none {t : Text} (h : nextTag t = none) (offset : Nat) :
    tokens offset t = [] := by
  rw [tokens, tags_of_nextTag_none h]
  rfl

theorem lastText_of_nextTag {t : Text} {s : TagSplit} (h : nextTag t = some s) :
    lastText t = lastText s.rest := by
  rw [lastText, tags_of_nextTag h]
  rfl

theorem lastText_of_nextTag_none {t : Text} (h : nextTag t = none) : lastText t = t := by
  rw [lastText, tags_of_nextTag_none h]
  rfl

/-- The text up to the end of a tag, from the end of the tag before it. -/
def Token.text (k : Token) : Text :=
  k.before ++ k.lexeme

/-- **A text is made up** of its tokens and of the text behind the last of them. -/
theorem eq_flatMap_text (offset : Nat) (t : Text) :
    t = (tokens offset t).flatMap Token.text ++ lastText t := by
  induction t using tags.induct generalizing offset with
  | case1 t h =>
    rw [tokens_of_nextTag_none h, lastText_of_nextTag_none h]
    rfl
  | case2 t s h ih =>
    rw [tokens_of_nextTag h, lastText_of_nextTag h, List.flatMap_cons, List.append_assoc, ← ih]
    exact (source_eq h).symm

/-- So texts with the same tokens, and the same text behind these, are the same. -/
theorem eq_of_tokens_eq {offset : Nat} {t u : Text} (h : tokens offset t = tokens offset u)
    (hlast : lastText t = lastText u) : t = u := by
  rw [eq_flatMap_text offset t, h, hlast, ← eq_flatMap_text]

/-! ### Cutting a text at a tag -/

theorem tokens_upTo_append {t : Text} {s : TagSplit} (h : nextTag t = some s) (offset : Nat)
    (other : Text) :
    tokens offset (s.upTo ++ other) = s.token offset :: tokens (s.token offset).stop other :=
  tokens_of_nextTag (nextTag_upTo_append h other) offset

theorem lastText_upTo_append {t : Text} {s : TagSplit} (h : nextTag t = some s) (other : Text) :
    lastText (s.upTo ++ other) = lastText other :=
  lastText_of_nextTag (nextTag_upTo_append h other)

theorem tokens_before {t : Text} {s : TagSplit} (h : nextTag t = some s) (offset : Nat) :
    tokens offset s.before = [] :=
  tokens_of_nextTag_none (nextTag_before h) offset

theorem lastText_before {t : Text} {s : TagSplit} (h : nextTag t = some s) :
    lastText s.before = s.before :=
  lastText_of_nextTag_none (nextTag_before h)

theorem stop_token (s : TagSplit) (offset : Nat) :
    (s.token offset).stop = offset + s.upTo.size := by
  simp only [Token.stop, TagSplit.token, TagSplit.upTo, Text.size_append]
  omega

/-- **A text falls into two parts** at each of its tags, which lies between them where its token
says and can be read there: the tokens of the text are those of the one part, the tag, and those of
the other part. -/
theorem exists_parts_of_mem_tokens {offset : Nat} {t : Text} {k : Token}
    (h : k ∈ tokens offset t) :
    ∃ front behind, t = front ++ k.lexeme ++ behind ∧ k.start = offset + front.size ∧
      Tag.lex? (k.lexeme ++ behind) = some ⟨k.tag, k.lexeme, behind⟩ ∧
      tokens offset t = tokens offset front ++ k :: tokens k.stop behind ∧
      lastText front = k.before ∧ lastText behind = lastText t := by
  induction t using tags.induct generalizing offset with
  | case1 t ht =>
    rw [tokens_of_nextTag_none ht] at h
    exact absurd h List.not_mem_nil
  | case2 t s hs ih =>
    rw [tokens_of_nextTag hs] at h
    rcases List.mem_cons.1 h with rfl | h
    · -- at the first tag, the text before it stands alone and has no tag
      refine ⟨s.before, s.rest, (source_eq hs).symm, rfl, lex?_of_nextTag hs, ?_,
        lastText_before hs, ?_⟩
      · rw [tokens_before hs, List.nil_append, tokens_of_nextTag hs]
      · exact (lastText_of_nextTag hs).symm
    · -- at a later tag, the first one is the first tag of the text before it too
      obtain ⟨front, behind, hrest, hstart, hlex, htokens, hbefore, hlast⟩ := ih h
      refine ⟨s.upTo ++ front, behind, ?_, ?_, hlex, ?_, ?_, ?_⟩
      · rw [List.append_assoc, List.append_assoc, ← List.append_assoc front, ← hrest,
          TagSplit.upTo_append_rest hs]
      · rw [hstart, stop_token, Text.size_append, Nat.add_assoc]
      · rw [tokens_of_nextTag hs, tokens_upTo_append hs, List.cons_append, htokens]
      · rw [lastText_upTo_append hs, hbefore]
      · rw [hlast, lastText_of_nextTag hs]

/-- Whether tokens stand in the order of their places. -/
def InOrder (ks : List Token) : Prop :=
  ks.Pairwise (·.start < ·.start)

/-- A tag takes up at least one byte. -/
theorem start_lt_stop_of_mem_tokens {offset : Nat} {t : Text} {k : Token}
    (h : k ∈ tokens offset t) : k.start < k.stop := by
  obtain ⟨_, _, -, -, hlex, -⟩ := exists_parts_of_mem_tokens h
  obtain ⟨inner, -, -, -, hlexeme⟩ := Tag.lex?_cons_cons hlex
  have hpos := Char.utf8Size_pos '\x7b'
  rw [Token.stop, show k.lexeme = _ from hlexeme, List.cons_append, Text.size_cons]
  omega

/-- **The tokens of a text** do not overlap: each ends before the next one begins. -/
theorem pairwise_stop_le_start (offset : Nat) (t : Text) :
    (tokens offset t).Pairwise (fun k l => k.stop ≤ l.start) := by
  induction t using tags.induct generalizing offset with
  | case1 t h =>
    rw [tokens_of_nextTag_none h]
    exact .nil
  | case2 t s h ih =>
    rw [tokens_of_nextTag h]
    refine List.pairwise_cons.2 ⟨?_, ih _⟩
    -- the places of later tags are counted from behind the first one
    intro l hl
    obtain ⟨front, behind, -, hstart, -⟩ := exists_parts_of_mem_tokens hl
    omega

/-- So they stand in the order of their places. -/
theorem inOrder_tokens (offset : Nat) (t : Text) : InOrder (tokens offset t) := by
  refine List.Pairwise.imp_of_mem ?_ (pairwise_stop_le_start offset t)
  intro k l hk _ hle
  have hlt := start_lt_stop_of_mem_tokens hk
  omega

/-- So no two of them begin at the same byte. -/
theorem InOrder.eq_of_start_eq {ks : List Token} (h : InOrder ks) {k l : Token} (hk : k ∈ ks)
    (hl : l ∈ ks) (hstart : k.start = l.start) : k = l := by
  induction ks with
  | nil => cases hk
  | cons head ks ih =>
    obtain ⟨hhead, hks⟩ := List.pairwise_cons.1 h
    -- the first token starts before all others
    rcases List.mem_cons.1 hk with heq | hk
    · rcases List.mem_cons.1 hl with heq' | hl
      · rw [heq, heq']
      · exact absurd (heq ▸ hstart) (Nat.ne_of_lt (hhead l hl))
    · rcases List.mem_cons.1 hl with heq' | hl
      · exact absurd (heq' ▸ hstart).symm (Nat.ne_of_lt (hhead k hk))
      · exact ih hks hk hl

end Stencil
