import Stencil.Proofs.Render.Marks

/-!
# Texts put together

When texts are put one behind the other, a tag can come into being where two of them meet, or be
lost there. If none is, the tags of the whole are those of the parts in their places
(`Seamless`), and then the tokens are known as well: the text at the end of each part goes in front
of the first tag behind it (`tokens_of_seamless`).

That marks settle the tokens is because the marks of a text say where it is to be cut
(`Spells.eq_of_marks`).

A tag can be cut out without any such condition: the tokens of a text are those before one of its
tags, the tag, and those behind it (`tokens_eq_of_mem`).
-/

namespace Stencil

/-- Two beginnings of a text that have the same size are the same. -/
theorem Text.append_inj_of_size {s s' t t' : Text} (h : s ++ t = s' ++ t')
    (hsize : s.size = s'.size) : s = s' ∧ t = t' := by
  have hs : s = s' := by
    rw [← takeBytes_size_append s t, h, hsize, takeBytes_size_append]
  subst hs
  exact ⟨rfl, List.append_cancel_left h⟩

/-! ### Cutting out a tag -/

/-- **A tag cuts the tokens** wherever the text is cut around it. -/
theorem tokens_eq_of_mem {t x y : Text} {k : Token} (hk : k ∈ tokens 0 t)
    (ht : t = x ++ k.lexeme ++ y) (hstart : k.start = x.size) :
    k.before = lastText x ∧ tokens 0 t = tokens 0 x ++ k :: tokens k.stop y ∧
      lastText t = lastText y := by
  obtain ⟨x', y', ht', hstart', -, htokens, hbefore, hlast⟩ := exists_parts_of_mem_tokens hk
  have hcut : x ++ (k.lexeme ++ y) = x' ++ (k.lexeme ++ y') := by
    rw [← List.append_assoc, ← List.append_assoc, ← ht, ht']
  obtain ⟨rfl, hbehind⟩ := Text.append_inj_of_size hcut (by omega)
  obtain rfl := List.append_cancel_left hbehind
  exact ⟨hbefore.symm, htokens, hlast.symm⟩

/-! ### Tokens that spell a text -/

/-- Whether the tokens `ks`, with `last` behind them, **make up the text** `t` that begins at byte
`offset`. -/
def Spells (last : Text) : Nat → List Token → Text → Prop
  | _, [], t => t = last
  | offset, k :: ks, t => ∃ rest, t = k.before ++ k.lexeme ++ rest ∧
      k.start = offset + k.before.size ∧ Spells last k.stop ks rest

theorem spells_tokens (offset : Nat) (t : Text) :
    Spells (lastText t) offset (tokens offset t) t := by
  induction t using tags.induct generalizing offset with
  | case1 t ht => rw [tokens_of_nextTag_none ht, lastText_of_nextTag_none ht]; rfl
  | case2 t s hs ih =>
    rw [tokens_of_nextTag hs, lastText_of_nextTag hs]
    exact ⟨s.rest, (source_eq hs).symm, rfl, ih _⟩

/-- **Marks say where a text is cut**: what makes up a text with the same marks is the same. -/
theorem Spells.eq_of_marks {last last' : Text} {offset : Nat} {ks ls : List Token} {t : Text}
    (hks : Spells last offset ks t) (hls : Spells last' offset ls t)
    (hmarks : ks.map Token.mark = ls.map Token.mark) : ks = ls ∧ last = last' := by
  induction ks generalizing offset ls t with
  | nil =>
    obtain rfl := List.map_eq_nil_iff.1 hmarks.symm
    exact ⟨rfl, hks.symm.trans hls⟩
  | cons k ks ih =>
    cases ls with
    | nil => cases hmarks
    | cons l ls =>
      obtain ⟨hmark, hrest⟩ := List.cons.inj hmarks
      obtain ⟨htag, hstart, hstop⟩ := Mark.mk.inj hmark
      obtain ⟨rest, ht, hk, hks⟩ := hks
      obtain ⟨rest', ht', hl, hls⟩ := hls
      rw [ht, List.append_assoc, List.append_assoc] at ht'
      -- the text before the tag, the tag and what follows it have the same sizes on both sides
      obtain ⟨hbefore, hbehind⟩ := Text.append_inj_of_size ht' (by omega)
      obtain ⟨hlexeme, rfl⟩ := Text.append_inj_of_size hbehind (by
        simp only [Token.stop] at hstop
        omega)
      have hkl : k = l := by
        cases k
        cases l
        simp_all
      subst hkl
      obtain ⟨rfl, hlast⟩ := ih hks hls hrest
      exact ⟨rfl, hlast⟩

/-! ### Putting texts together -/

/-- The tokens `ks`, with `last` behind them, and then the tokens `ls`. -/
def joinTokens (ks : List Token) (last : Text) : List Token → List Token
  | [] => ks
  | l :: ls => ks ++ { l with before := last ++ l.before } :: ls

/-- The text behind the last token, when `last` stands behind some tokens, and behind those the
tokens `ls` with `last'`. -/
def joinLast (last : Text) (ls : List Token) (last' : Text) : Text :=
  if ls.isEmpty then last ++ last' else last'

theorem map_mark_joinTokens (ks : List Token) (last : Text) (ls : List Token) :
    (joinTokens ks last ls).map Token.mark = ks.map Token.mark ++ ls.map Token.mark := by
  cases ls with
  | nil => rw [joinTokens, List.map_nil, List.append_nil]
  | cons l ls =>
    rw [joinTokens, List.map_append, List.map_cons, List.map_cons]
    rfl

theorem Spells.join {last last' : Text} {offset : Nat} {ks ls : List Token} {s t : Text}
    (hs : Spells last offset ks s) (ht : Spells last' (offset + s.size) ls t) :
    Spells (joinLast last ls last') offset (joinTokens ks last ls) (s ++ t) := by
  induction ks generalizing offset s with
  | nil =>
    obtain rfl : s = last := hs
    cases ls with
    | nil => exact congrArg (s ++ ·) ht
    | cons l ls =>
      obtain ⟨rest, rfl, hstart, hls⟩ := ht
      refine ⟨rest, by simp only [List.append_assoc], ?_, hls⟩
      rw [Text.size_append, ← Nat.add_assoc]
      exact hstart
  | cons k ks ih =>
    obtain ⟨rest, rfl, hstart, hks⟩ := hs
    -- the other text begins where the rest of the first one ends
    have hplace : offset + (k.before ++ k.lexeme ++ rest).size = k.stop + rest.size := by
      simp only [Text.size_append, Token.stop]
      omega
    rw [hplace] at ht
    have hrest := ih hks ht
    cases ls with
    | nil => exact ⟨rest ++ t, by simp only [List.append_assoc], hstart, hrest⟩
    | cons l ls => exact ⟨rest ++ t, by simp only [List.append_assoc], hstart, hrest⟩

/-- Whether **no tag is formed or lost** where the texts `x`, `z` and `y` meet: the tags of all are
those of `x`, then those of `z` and then those of `y`, in their places. -/
def Seamless (x z y : Text) : Prop :=
  (tokens 0 (x ++ z ++ y)).map Token.mark
    = (tokens 0 x ++ tokens x.size z ++ tokens (x.size + z.size) y).map Token.mark

/-- **The tokens of texts put together** are those of the parts. -/
theorem tokens_of_seamless {x z y : Text} (h : Seamless x z y) :
    tokens 0 (x ++ z ++ y)
        = joinTokens (joinTokens (tokens 0 x) (lastText x) (tokens x.size z))
            (joinLast (lastText x) (tokens x.size z) (lastText z))
            (tokens (x.size + z.size) y) ∧
      lastText (x ++ z ++ y)
        = joinLast (joinLast (lastText x) (tokens x.size z) (lastText z))
            (tokens (x.size + z.size) y) (lastText y) := by
  have hz : Spells (lastText z) (0 + x.size) (tokens x.size z) z := by
    rw [Nat.zero_add]
    exact spells_tokens x.size z
  have hy : Spells (lastText y) (0 + (x ++ z).size) (tokens (x.size + z.size) y) y := by
    rw [Nat.zero_add, Text.size_append]
    exact spells_tokens (x.size + z.size) y
  -- the three lists, joined, make up the whole as its own tokens do
  have hxzy := ((spells_tokens 0 x).join hz).join hy
  refine (spells_tokens 0 (x ++ z ++ y)).eq_of_marks hxzy ?_
  rw [h, map_mark_joinTokens, map_mark_joinTokens, List.map_append, List.map_append]

end Stencil
