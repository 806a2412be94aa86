import Mathlib.Algebra.Group.Nat.Even
import Mathlib.Data.List.TakeWhile
import Stencil.Proofs.Tag.Nesting

/-!
# Closing what is open

A text can leave blocks open. Their kinds come from counting alone (`unclosed`), and the tags that
close them can be written behind the text. This module says which tags the text has then: its own
ones, followed by the closing ones (`tokens_append_closingTags`).

The one way in which text behind a text can change its tags is by way of brackets at its end:

* an odd number of opening brackets at the end of a text leaves one over, which together with the
  first bracket of a tag behind it would read as two (`bracketsAtEnd`);
* two opening brackets that nothing in the text closes read on into what follows. But then what they
  enclose holds a bracket, and no tag does (`Tag.classify?_eq_none`).

So a text that does not end in an odd number of brackets keeps its tags when a tag is put behind it
(`nextTag_append`, `tokens_append`).
-/

namespace Stencil

/-! ### What tags do not hold -/

namespace Text

/-- Trimming only takes away what is trimmed. -/
theorem mem_trim {p : Char → Bool} {c : Char} {t : Text} (h : c ∈ t) (hc : p c = false) :
    c ∈ trim p t := by
  have hdrop {u : Text} (hu : c ∈ u) : c ∈ u.dropWhile p := by
    rw [← List.takeWhile_append_dropWhile (p := p) (l := u), List.mem_append] at hu
    refine hu.resolve_left fun hmem => ?_
    rw [List.mem_takeWhile_imp hmem] at hc
    cases hc
  rw [trim, trimRight, List.mem_reverse]
  exact hdrop (List.mem_reverse.2 (hdrop h))

/-- No piece of a text that is cut at blanks loses a bracket. -/
theorem mem_of_cutAt?_isBlank {t before after : Text} (h : cutAt? isBlank t = some (before, after))
    (hmem : '\x7b' ∈ t) : '\x7b' ∈ before ∨ '\x7b' ∈ after := by
  obtain ⟨c, hc, rfl, -⟩ := cutAt?_eq_some h
  rcases List.mem_append.1 hmem with hmem | hmem
  · exact .inl hmem
  · rcases List.mem_cons.1 hmem with rfl | hmem
    · cases hc
    · exact .inr hmem

end Text

/-- No word names a kind that has a bracket in it. -/
theorem BlockKind.ofKeyword?_eq_none {word : Text} (h : '\x7b' ∈ word) :
    ofKeyword? word = none := by
  refine List.find?_eq_none.2 fun kind _ hkind => ?_
  obtain rfl := of_decide_eq_true hkind
  cases kind <;> simp [keyword] at h

theorem isPath_eq_false {t : Text} (h : '\x7b' ∈ t) : isPath t = false := by
  have hall : t.all isPathChar = false := List.all_eq_false.2 ⟨_, h, by decide⟩
  rw [isPath, hall, Bool.and_false]

theorem isPartialName_eq_false {t : Text} (h : '\x7b' ∈ t) : isPartialName t = false := by
  have hall : t.all isNameChar = false := List.all_eq_false.2 ⟨_, h, by decide⟩
  rw [isPartialName, hall, Bool.and_false]

/-- **No tag has an opening bracket inside.** -/
theorem Tag.classify?_eq_none {inner : Text} (h : '\x7b' ∈ inner) : classify? inner = none := by
  unfold classify?
  split
  -- wherever the bracket stands, in a name, a keyword or a path, there is none allowed
  · next name =>
    have hname := Text.mem_trim (p := Text.isBlank) (List.mem_of_ne_of_mem (by decide) h) rfl
    simp only [isPartialName_eq_false hname]
    rfl
  · next rest =>
    cases hcut : Text.cutAt? Text.isBlank rest with
    | none => rfl
    | some cut =>
      obtain ⟨word, path⟩ := cut
      have hrest : '\x7b' ∈ rest := List.mem_of_ne_of_mem (by decide) h
      rcases Text.mem_of_cutAt?_isBlank hcut hrest with hword | hpath
      · simp only [Option.bind_eq_bind, Option.bind_some, BlockKind.ofKeyword?_eq_none hword]
        rfl
      · have hpath := isPath_eq_false (Text.mem_trim (p := Text.isBlank) hpath rfl)
        cases hkind : BlockKind.ofKeyword? word with
        | none => simp [hkind]
        | some kind => simp [hkind, hpath]
  · next word =>
    have hword := Text.mem_trim (p := Text.isBlank) (List.mem_of_ne_of_mem (by decide) h) rfl
    rw [BlockKind.ofKeyword?_eq_none hword]
    rfl
  · have helse : inner ≠ elseWord := by
      rintro rfl
      simp [elseWord] at h
    rw [if_neg helse, isPath_eq_false h]
    rfl

/-! ### Tags behind a text -/

/-- Closing brackets that a text does not have come behind what follows it. -/
theorem mem_of_cutAtClose?_append {c : Char} {t u inner rest : Text} (ht : cutAtClose? t = none)
    (hu : u.head? = some c) (hc : c ≠ '\x7d') (h : cutAtClose? (t ++ u) = some (inner, rest)) :
    c ∈ inner := by
  induction t using cutAtClose?.induct generalizing inner rest with
  | case1 t => cases ht
  | case2 d t hne ih =>
    have hhead := not_doubled hne
    rw [cutAtClose?_cons hhead, Option.map_eq_none_iff] at ht
    -- no closing brackets are made where the two texts meet
    have hhead' : ¬ (d = '\x7d' ∧ (t ++ u).head? = some '\x7d') := by
      rintro ⟨hd, htu⟩
      cases t with
      | nil => exact hc (Option.some.inj (hu.symm.trans htu))
      | cons e t => exact hhead ⟨hd, htu⟩
    rw [List.cons_append, cutAtClose?_cons hhead', Option.map_eq_some_iff] at h
    obtain ⟨⟨i, r⟩, hcut, heq⟩ := h
    obtain ⟨rfl, rfl⟩ := Prod.mk.injEq .. ▸ heq
    exact List.mem_cons_of_mem _ (ih ht hcut)
  | case3 =>
    obtain ⟨u, rfl⟩ := List.head?_eq_some_iff.1 hu
    rw [List.nil_append, cutAtClose?_cons (fun hcu => hc hcu.1), Option.map_eq_some_iff] at h
    obtain ⟨⟨i, r⟩, -, heq⟩ := h
    obtain ⟨rfl, -⟩ := Prod.mk.injEq .. ▸ heq
    exact List.mem_cons_self

/-- How many opening brackets a text ends in. -/
def bracketsAtEnd (t : Text) : Nat :=
  (t.reverse.takeWhile (· = '\x7b')).length

/-- A character in front counts only if there is nothing but brackets behind it. -/
theorem bracketsAtEnd_cons_of_exists {t : Text} (h : ∃ d ∈ t, d ≠ '\x7b') (c : Char) :
    bracketsAtEnd (c :: t) = bracketsAtEnd t := by
  rw [bracketsAtEnd, List.reverse_cons, List.takeWhile_append, if_neg, bracketsAtEnd]
  intro hlength
  have heq := (List.takeWhile_sublist (fun c => decide (c = '\x7b'))).eq_of_length hlength
  obtain ⟨d, hd, hne⟩ := h
  rw [← List.mem_reverse, ← heq] at hd
  exact hne (by simpa using List.mem_takeWhile_imp hd)

theorem bracketsAtEnd_cons_of_forall {t : Text} (h : ∀ d ∈ t, d = '\x7b') (c : Char) :
    bracketsAtEnd (c :: t) = bracketsAtEnd t + if c = '\x7b' then 1 else 0 := by
  have heq : t.reverse.takeWhile (· = '\x7b') = t.reverse :=
    List.takeWhile_eq_self_iff.2 fun d hd => decide_eq_true (h d (List.mem_reverse.1 hd))
  rw [bracketsAtEnd, List.reverse_cons, List.takeWhile_append, heq, if_pos rfl, bracketsAtEnd, heq,
    List.length_append]
  split <;> simp [*]

/-- Brackets are counted from behind the last character that is none. -/
theorem bracketsAtEnd_append_cons (u : Text) {c : Char} (hc : c ≠ '\x7b') (t : Text) :
    bracketsAtEnd (u ++ c :: t) = bracketsAtEnd t := by
  induction u with
  | nil =>
    by_cases ht : ∀ d ∈ t, d = '\x7b'
    · rw [List.nil_append, bracketsAtEnd_cons_of_forall ht, if_neg hc, Nat.add_zero]
    · exact bracketsAtEnd_cons_of_exists (by simpa using ht) c
  | cons d u ih =>
    have hother : c ∈ u ++ c :: t := List.mem_append_right _ List.mem_cons_self
    rw [List.cons_append, bracketsAtEnd_cons_of_exists ⟨c, hother, hc⟩, ih]

/-- What stands up to the end of a tag does not count. -/
theorem bracketsAtEnd_append_of_lex? {t : Text} {l : Lexed} (h : Tag.lex? t = some l) (u : Text) :
    bracketsAtEnd (u ++ t) = bracketsAtEnd l.rest := by
  obtain ⟨inner, -, -, -, hlexeme⟩ := Tag.lex?_cons_cons h
  have hshape : u ++ t
      = (u ++ '\x7b' :: '\x7b' :: inner ++ ['\x7d']) ++ '\x7d' :: l.rest := by
    rw [← Tag.lexeme_append_rest h, show l.lexeme = _ from hlexeme]
    simp
  rw [hshape, bracketsAtEnd_append_cons _ (by decide)]

theorem bracketsAtEnd_of_nextTag {t : Text} {s : TagSplit} (h : nextTag t = some s) :
    bracketsAtEnd t = bracketsAtEnd s.rest := by
  rw [← source_eq h, TagSplit.source, List.append_assoc]
  exact bracketsAtEnd_append_of_lex? (lex?_of_nextTag h) s.before

/-- Two brackets in front keep the number even. -/
theorem even_bracketsAtEnd_of_cons_cons {t : Text}
    (h : Even (bracketsAtEnd ('\x7b' :: '\x7b' :: t))) : Even (bracketsAtEnd t) := by
  by_cases ht : ∀ d ∈ t, d = '\x7b'
  · have ht' : ∀ d ∈ '\x7b' :: t, d = '\x7b' := by simpa using ht
    rw [bracketsAtEnd_cons_of_forall ht', bracketsAtEnd_cons_of_forall ht, if_pos rfl,
      Nat.add_assoc, Nat.even_add] at h
    exact h.2 (by decide)
  · have ht : ∃ d ∈ t, d ≠ '\x7b' := by simpa using ht
    obtain ⟨d, hd, hne⟩ := ht
    rwa [bracketsAtEnd_cons_of_exists ⟨d, List.mem_cons_of_mem _ hd, hne⟩,
      bracketsAtEnd_cons_of_exists ⟨d, hd, hne⟩] at h

/-- **A tag behind a text without tags** is the first one, unless brackets of both run together. -/
theorem nextTag_append {t u : Text} {l : Lexed} (ht : nextTag t = none)
    (hend : Even (bracketsAtEnd t)) (hu : Tag.lex? u = some l) :
    nextTag (t ++ u) = some ⟨t, l.tag, l.lexeme, l.rest⟩ := by
  obtain ⟨-, -, -, hshape, -⟩ := Tag.lex?_cons_cons hu
  have hhead : u.head? = some '\x7b' := by rw [hshape]; rfl
  induction t using nextTag.induct with
  | case1 t l' hl => rw [nextTag, hl] at ht; cases ht
  | case2 t hl ih =>
    rw [nextTag, hl, Option.map_eq_none_iff] at ht
    have hnone : Tag.lex? ('\x7b' :: '\x7b' :: (t ++ u)) = none := by
      cases hcut : cutAtClose? t with
      | some cut => exact Tag.lex?_append_eq_none hcut hl u
      | none =>
        cases hcut' : cutAtClose? (t ++ u) with
        | none => rw [Tag.lex?, hcut']; rfl
        | some cut =>
          -- the brackets would reach into `u`, whose own bracket then stands between them
          have hmem := mem_of_cutAtClose?_append hcut hhead (by decide) hcut'
          rw [Tag.lex?, hcut']
          simp [Tag.classify?_eq_none (Text.mem_trim (p := Text.isBlank) hmem rfl)]
    change nextTag ('\x7b' :: '\x7b' :: (t ++ u)) = _
    rw [nextTag, hnone, ih ht (even_bracketsAtEnd_of_cons_cons hend)]
    rfl
  | case3 c t hne ih =>
    have hfirst := not_doubled hne
    rw [nextTag_cons hfirst, Option.map_eq_none_iff] at ht
    have hfirst' : ¬ (c = '\x7b' ∧ (t ++ u).head? = some '\x7b') := by
      rintro ⟨rfl, htu⟩
      cases t with
      | nil => exact absurd hend (by decide)
      | cons d t => exact hfirst ⟨rfl, htu⟩
    have hend' : Even (bracketsAtEnd t) := by
      by_cases hall : ∀ d ∈ t, d = '\x7b'
      · rw [bracketsAtEnd_cons_of_forall hall] at hend
        by_cases hc : c = '\x7b'
        · -- the bracket `c` would be doubled, unless it is the last one
          cases t with
          | nil => exact ⟨0, rfl⟩
          | cons d t => exact absurd ⟨hc, congrArg some (hall d List.mem_cons_self)⟩ hfirst
        · rwa [if_neg hc, Nat.add_zero] at hend
      · rwa [bracketsAtEnd_cons_of_exists (by simpa using hall)] at hend
    rw [List.cons_append, nextTag_cons hfirst', ih ht hend']
    rfl
  | case4 => exact nextTag_of_lex? hu

/-- **The tokens of a text with a tag behind it** are its own, that of the tag, and what follows. -/
theorem tokens_append {t u : Text} {l : Lexed} (hend : Even (bracketsAtEnd t))
    (hu : Tag.lex? u = some l) (offset : Nat) :
    tokens offset (t ++ u) = tokens offset t ++ ⟨lastText t, l.tag, l.lexeme, offset + t.size⟩ ::
      tokens (offset + t.size + l.lexeme.size) l.rest := by
  induction t using tags.induct generalizing offset with
  | case1 t h =>
    rw [tokens_of_nextTag (nextTag_append h hend hu), tokens_of_nextTag_none h,
      lastText_of_nextTag_none h]
    rfl
  | case2 t s h ih =>
    rw [bracketsAtEnd_of_nextTag h] at hend
    have hsize := congrArg Text.size (TagSplit.upTo_append_rest h)
    rw [Text.size_append] at hsize
    -- the tag behind the text stays where it is when the tags in front are split off
    have hplace : (s.token offset).stop + s.rest.size = offset + t.size := by
      rw [stop_token]
      omega
    rw [tokens_of_nextTag h, lastText_of_nextTag h, ← TagSplit.upTo_append_rest h,
      List.append_assoc, tokens_upTo_append h, ih hend, TagSplit.upTo_append_rest h, hplace]
    rfl

theorem lastText_append {t u : Text} {l : Lexed} (hend : Even (bracketsAtEnd t))
    (hu : Tag.lex? u = some l) : lastText (t ++ u) = lastText l.rest := by
  induction t using tags.induct with
  | case1 t h => exact lastText_of_nextTag (nextTag_append h hend hu)
  | case2 t s h ih =>
    rw [bracketsAtEnd_of_nextTag h] at hend
    rw [← TagSplit.upTo_append_rest h, List.append_assoc, lastText_upTo_append h, ih hend]

/-! ### Blocks that are left open -/

/-- The kinds of the blocks that a text leaves open, the innermost one first: an opening tag counts
one up, a closing one down if there is anything to close. -/
def unclosed (t : Text) : List BlockKind :=
  ((tags t).map TagSplit.tag).foldl Tag.kindsAfter []

/-- The tag that closes a block. -/
def BlockKind.closingTag (kind : BlockKind) : Text :=
  ['\x7b', '\x7b', '/'] ++ kind.keyword ++ ['\x7d', '\x7d']

theorem BlockKind.lex?_closingTag_append (kind : BlockKind) (rest : Text) :
    Tag.lex? (kind.closingTag ++ rest) = some ⟨.closing kind, kind.closingTag, rest⟩ := by
  cases kind <;> rfl

/-! The tokens of closing tags that stand one behind the other, of which the first stands behind the
text `before` and begins at byte `offset`, and the text behind the last of them. -/

/-- The tokens of closing tags. -/
def closingTokens (offset : Nat) (before : Text) : List BlockKind → List Token
  | [] => []
  | kind :: kinds => ⟨before, .closing kind, kind.closingTag, offset⟩ ::
      closingTokens (offset + kind.closingTag.size) [] kinds

/-- The text behind closing tags. -/
def lastBehind (before : Text) : List BlockKind → Text
  | [] => before
  | _ :: _ => []

theorem tokens_closingTags (offset : Nat) (kinds : List BlockKind) :
    tokens offset (kinds.flatMap BlockKind.closingTag) = closingTokens offset [] kinds := by
  induction kinds generalizing offset with
  | nil => exact tokens_of_nextTag_none rfl offset
  | cons kind kinds ih =>
    rw [List.flatMap_cons, tokens_of_nextTag (nextTag_of_lex? (kind.lex?_closingTag_append _)),
      closingTokens, ih]
    rfl

theorem lastText_closingTags (kinds : List BlockKind) :
    lastText (kinds.flatMap BlockKind.closingTag) = [] := by
  induction kinds with
  | nil => exact lastText_of_nextTag_none rfl
  | cons kind kinds ih =>
    rw [List.flatMap_cons, lastText_of_nextTag (nextTag_of_lex? (kind.lex?_closingTag_append _)),
      ih]

section Closed

variable {t : Text} (hend : Even (bracketsAtEnd t))
include hend

/-- **The tokens of a text with closing tags behind it**. -/
theorem tokens_append_closingTags (kinds : List BlockKind) (offset : Nat) :
    tokens offset (t ++ kinds.flatMap BlockKind.closingTag)
      = tokens offset t ++ closingTokens (offset + t.size) (lastText t) kinds := by
  cases kinds with
  | nil => rw [List.flatMap_nil, List.append_nil, closingTokens, List.append_nil]
  | cons kind kinds =>
    rw [List.flatMap_cons, tokens_append hend (kind.lex?_closingTag_append _), tokens_closingTags]
    rfl

theorem lastText_append_closingTags (kinds : List BlockKind) :
    lastText (t ++ kinds.flatMap BlockKind.closingTag) = lastBehind (lastText t) kinds := by
  cases kinds with
  | nil => rw [List.flatMap_nil, List.append_nil, lastBehind]
  | cons kind kinds =>
    rw [List.flatMap_cons, lastText_append hend (kind.lex?_closingTag_append _),
      lastText_closingTags]
    rfl

end Closed

end Stencil
