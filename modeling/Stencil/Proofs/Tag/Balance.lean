import Stencil.Proofs.Tag.Closing
import Stencil.Proofs.Tag.Slices

/-!
# Where a block ends, by counting

The scan for the end of a block keeps a depth. What it finds can be said without one, by how many
opening and how many closing tags there are: the block ends at the first tag with which the closing
tags are in the majority (`Block.scan_cuts_at_surplus`).

The depth of the scan and the numbers of tags are tied by one invariant, `Tag.ClosesWithin`: as long
as `depth` blocks are open, what comes next may close so many blocks more than it opens. A tag in
front moves the bound as it moves the depth (`closesWithin_cons_iff`), and so for all lists of
tokens:

* `closeAt_eq_none_iff` — there is no cut just if the bound is kept to the end;
* `closesWithin_of_closeAt`, `closeAt_append_cons` — there is a cut at a closing tag just if the
  tags before it keep the bound, and exhaust it.

That the scan does not look behind the tag at which it cuts is `closeIn?_append`.
-/

namespace Stencil

/-! ### Counting -/

namespace Tag

/-- Whether a tag opens a block. -/
def isOpening : Tag → Bool
  | .opening .. => true
  | _ => false

/-- How many blocks some tags open. -/
def openings (l : List Tag) : Nat :=
  l.countP isOpening

/-- How many blocks some tags close. -/
def closings (l : List Tag) : Nat :=
  l.countP isClosing

@[simp] theorem openings_nil : openings [] = 0 := rfl

@[simp] theorem closings_nil : closings [] = 0 := rfl

@[simp] theorem openings_cons (tag : Tag) (l : List Tag) :
    openings (tag :: l) = openings l + if tag.isOpening then 1 else 0 :=
  List.countP_cons

@[simp] theorem closings_cons (tag : Tag) (l : List Tag) :
    closings (tag :: l) = closings l + if tag.isClosing then 1 else 0 :=
  List.countP_cons

@[simp] theorem openings_append (l m : List Tag) :
    openings (l ++ m) = openings l + openings m :=
  List.countP_append

@[simp] theorem closings_append (l m : List Tag) :
    closings (l ++ m) = closings l + closings m :=
  List.countP_append

/-- Whether some tags close **more blocks than they open**. -/
def HasSurplus (l : List Tag) : Prop :=
  openings l < closings l

/-- Whether tags close at most `depth` blocks more than they open, and no beginning of them closes
more either. -/
def ClosesWithin (depth : Nat) (l : List Tag) : Prop :=
  ∀ p, p <+: l → closings p ≤ openings p + depth

/-- Whether tags are **balanced**: no beginning of them closes more blocks than it opens, and all of
them close as many as they open. -/
structure Balanced (l : List Tag) : Prop where
  closesWithin : ClosesWithin 0 l
  closings_eq : closings l = openings l

theorem closesWithin_nil (depth : Nat) : ClosesWithin depth [] := by
  intro p hp
  obtain rfl := List.prefix_nil.1 hp
  exact Nat.zero_le _

/-- **A tag in front** moves the bound as it moves the depth; it must not close a block when none is
open. -/
theorem closesWithin_cons_iff {depth : Nat} {tag : Tag} {l : List Tag} :
    ClosesWithin depth (tag :: l)
      ↔ ¬ (depth = 0 ∧ tag.isClosing) ∧ ClosesWithin (tag.depthAfter depth) l := by
  constructor
  · intro h
    have hfirst := h [tag] ⟨l, rfl⟩
    refine ⟨?_, ?_⟩
    · rintro ⟨rfl, hclosing⟩
      cases tag <;> simp [isOpening, isClosing] at hfirst hclosing
    · intro p hp
      have hlonger := h (tag :: p) (List.cons_prefix_cons.2 ⟨rfl, hp⟩)
      cases tag <;> simp [isOpening, isClosing, depthAfter] at hfirst hlonger ⊢ <;> omega
  · rintro ⟨hclosing, hrest⟩ p hp
    -- a front of the longer list is empty, or the tag stands before a front of the shorter one
    cases p with
    | nil => exact Nat.zero_le _
    | cons head p =>
      obtain ⟨rfl, hshort⟩ := List.cons_prefix_cons.1 hp
      have hshorter := hrest p hshort
      cases head <;> simp [isOpening, isClosing, depthAfter] at hclosing hshorter ⊢ <;> omega

/-- What a tag adds to the numbers, the depth counts too. -/
theorem closings_cons_eq_iff {depth : Nat} {tag : Tag} (h : ¬ (depth = 0 ∧ tag.isClosing))
    (l : List Tag) :
    closings (tag :: l) = openings (tag :: l) + depth
      ↔ closings l = openings l + tag.depthAfter depth := by
  cases tag <;> simp [isOpening, isClosing, depthAfter] at h ⊢ <;> omega

/-- As long as the bound is kept, the depth is what has been opened and not closed. -/
theorem depthBehind_add_closings {depth : Nat} {l : List Tag} (h : ClosesWithin depth l) :
    depthBehind depth l + closings l = openings l + depth := by
  induction l generalizing depth with
  | nil => simp
  | cons tag l ih =>
    obtain ⟨htag, hl⟩ := closesWithin_cons_iff.1 h
    have hrest := ih hl
    cases tag <;> simp [isOpening, isClosing, depthAfter] at htag hrest ⊢ <;> omega

/-- Tags that keep the bound and exhaust it are followed by tags that keep to themselves. -/
theorem ClosesWithin.append {depth : Nat} {l m : List Tag} (h : ClosesWithin depth l)
    (htotal : closings l = openings l + depth) (hm : ClosesWithin 0 m) :
    ClosesWithin depth (l ++ m) := by
  induction l generalizing depth with
  | nil =>
    obtain rfl : depth = 0 := by simpa using htotal.symm
    exact hm
  | cons tag l ih =>
    obtain ⟨htag, hl⟩ := closesWithin_cons_iff.1 h
    exact closesWithin_cons_iff.2 ⟨htag, ih hl ((closings_cons_eq_iff htag l).1 htotal)⟩

/-- Balanced tags one after the other are balanced. -/
theorem Balanced.append {l m : List Tag} (hl : Balanced l) (hm : Balanced m) :
    Balanced (l ++ m) where
  closesWithin := hl.closesWithin.append hl.closings_eq hm.closesWithin
  closings_eq := by rw [closings_append, openings_append, hl.closings_eq, hm.closings_eq]

/-- A tag that neither opens nor closes a block does not count. -/
theorem Balanced.cons {l : List Tag} (hl : Balanced l) {tag : Tag} (hopening : ¬ tag.isOpening)
    (hclosing : ¬ tag.isClosing) : Balanced (tag :: l) where
  closesWithin := by
    have hdepth : tag.depthAfter 0 = 0 := by
      cases tag <;> simp_all [isOpening, isClosing, depthAfter]
    rw [closesWithin_cons_iff, hdepth]
    exact ⟨fun h => hclosing h.2, hl.closesWithin⟩
  closings_eq := by
    rw [closings_cons, openings_cons, if_neg hopening, if_neg hclosing, hl.closings_eq]

/-- The bound is kept to the end just if no beginning exceeds it. -/
theorem closesWithin_zero_iff {l : List Tag} :
    ClosesWithin 0 l ↔ ∀ p, p <+: l → ¬ HasSurplus p :=
  forall₂_congr fun _ _ => Nat.not_lt.symm

end Tag

/-! ### A tag right behind a text -/

/-- The token of a tag that stands right behind the text `t`. -/
def Lexed.tokenBehind (l : Lexed) (t : Text) : Token :=
  ⟨lastText t, l.tag, l.lexeme, t.size⟩

section Behind

variable {t u : Text} {l : Lexed} (hend : Even (bracketsAtEnd t)) (hu : Tag.lex? u = some l)
include hend hu

theorem tokens_append_of_lex? : tokens 0 (t ++ u)
    = tokens 0 t ++ l.tokenBehind t :: tokens (l.tokenBehind t).stop l.rest := by
  rw [tokens_append hend hu, Nat.zero_add]
  rfl

theorem tagsIn_append : tagsIn (t ++ u) = tagsIn t ++ l.tag :: tagsIn l.rest := by
  rw [tagsIn, ← map_tag_tokens 0, tokens_append_of_lex? hend hu, List.map_append, List.map_cons,
    map_tag_tokens, map_tag_tokens]
  rfl

/-- Cut at the tag, the text before it and the text behind it are told apart again. -/
theorem Cut.Agrees.eq_of_append {c : Cut}
    (hc : c.Agrees ⟨tokens 0 t, l.tokenBehind t, tokens (l.tokenBehind t).stop l.rest⟩ 0 (t ++ u)) :
    c = ⟨t, l.rest⟩ :=
  hc.eq_of_tokens rfl rfl rfl (lastText_append hend hu)

end Behind

/-! ### The cut at the closing tag -/

section Cuts

variable {depth : Nat} {ks : List Token} {x : TokenCut}

/-- **No tag closes the block** just if the bound is kept to the end. -/
theorem closeAt_eq_none_iff :
    closeAt depth ks = none ↔ Tag.ClosesWithin depth (ks.map Token.tag) := by
  induction ks generalizing depth with
  | nil => exact iff_of_true rfl (Tag.closesWithin_nil depth)
  | cons k ks ih =>
    rw [List.map_cons, Tag.closesWithin_cons_iff, closeAt, cutAt]
    split
    · next hk => simp [hk]
    · next hk => simp [hk, ih]

/-- **Before the tag that closes the block** the bound is kept, and then exhausted. -/
theorem closesWithin_of_closeAt (h : closeAt depth ks = some x) :
    Tag.ClosesWithin depth (x.before.map Token.tag) ∧
      Tag.closings (x.before.map Token.tag) = Tag.openings (x.before.map Token.tag) + depth := by
  have hwithin := closeAt_eq_none_iff.1 (cutAt_before h)
  have hcount := Tag.depthBehind_add_closings hwithin
  rw [depthBehind_before h, Nat.zero_add] at hcount
  exact ⟨hwithin, hcount⟩

/-- **A closing tag closes the block** if the tags before it keep the bound and exhaust it. -/
theorem closeAt_append_cons {k : Token} (hwithin : Tag.ClosesWithin depth (ks.map Token.tag))
    (htotal : Tag.closings (ks.map Token.tag) = Tag.openings (ks.map Token.tag) + depth)
    (hk : k.tag.isClosing) (ls : List Token) :
    closeAt depth (ks ++ k :: ls) = some ⟨ks, k, ls⟩ := by
  have hcount := Tag.depthBehind_add_closings hwithin
  exact cutAt_append_cons (closeAt_eq_none_iff.2 hwithin) (by omega) hk ls

/-- With the tag that closes the block, the closing tags are in the majority for the first time. -/
theorem hasSurplus_of_closeAt (h : closeAt 0 ks = some x) :
    Tag.HasSurplus ((x.before ++ [x.token]).map Token.tag) ∧
      ∀ ls, ls <+: x.before → ¬ Tag.HasSurplus (ls.map Token.tag) := by
  obtain ⟨hwithin, htotal⟩ := closesWithin_of_closeAt h
  obtain ⟨kind, hkind⟩ := Tag.isClosing_iff.1 (hit_of_cutAt h)
  refine ⟨?_, ?_⟩
  · rw [Tag.HasSurplus, List.map_append, Tag.openings_append, Tag.closings_append, htotal,
      List.map_singleton, hkind]
    simp [Tag.isOpening, Tag.isClosing]
  · intro ls hls
    exact Tag.closesWithin_zero_iff.1 hwithin _ (hls.map Token.tag)

end Cuts

/-! ### The scan -/

/-- **The scan does not look behind the closing tag** at which it cuts. -/
theorem closeIn?_append {depth : Nat} {t : Text} {kind : BlockKind} {c : Cut}
    (h : closeIn? depth (tags t) = some (kind, c)) (more : Text) :
    closeIn? depth (tags (t ++ more)) = some (kind, { c with after := c.after ++ more }) := by
  induction t using tags.induct generalizing depth c with
  | case1 t ht =>
    rw [tags_of_nextTag_none ht] at h
    cases h
  | case2 t s hs ih =>
    have hmore : nextTag (t ++ more) = some { s with rest := s.rest ++ more } := by
      rw [← TagSplit.upTo_append_rest hs, List.append_assoc]
      exact nextTag_upTo_append hs _
    -- every tag but the closing one only adds to the text before the cut
    have further {d : Nat}
        (h : (closeIn? d (tags s.rest)).map (fun c => (c.1, c.2.push s.upTo)) = some (kind, c)) :
        (closeIn? d (tags (s.rest ++ more))).map (fun c => (c.1, c.2.push s.upTo))
          = some (kind, { c with after := c.after ++ more }) := by
      obtain ⟨⟨kind', c'⟩, hc, heq⟩ := Option.map_eq_some_iff.1 h
      obtain ⟨rfl, rfl⟩ := Prod.mk.injEq .. ▸ heq
      rw [ih hc]
      rfl
    rw [tags_of_nextTag hs, closeIn?.eq_def] at h
    rw [tags_of_nextTag hmore, closeIn?.eq_def]
    simp only at h ⊢
    cases htag : s.tag with
    | closing close =>
      rw [htag] at h
      cases depth with
      | zero =>
        obtain ⟨rfl, rfl⟩ := Prod.mk.injEq .. ▸ Option.some.inj h
        rfl
      | succ depth => exact further h
    | opening k path =>
      rw [htag] at h
      exact further h
    | _ =>
      rw [htag] at h
      exact further h

namespace Block

/-- A block that is closed stays as it is when text is added behind it. -/
theorem scan_append {kind : BlockKind} {content : Text} (h : (scan kind content).isClosed)
    (more : Text) :
    scan kind (content ++ more)
      = { scan kind content with rest := (scan kind content).rest ++ more } := by
  rw [scan] at h
  split at h
  · next close c hc => rw [scan, scan, closeIn?_append hc more, hc]
  · cases h

/-- A block ends where it does whatever its kind is. -/
theorem scan_kind (kind kind' : BlockKind) (content : Text) :
    scan kind' content = { scan kind content with kind := kind' } := by
  rw [scan, scan]
  split <;> rfl

/-- **A body that is balanced** is found again, if a closing tag stands right behind it. -/
theorem scan_append_closing {t u : Text} {l : Lexed} {close : BlockKind}
    (h : Tag.Balanced (tagsIn t)) (hend : Even (bracketsAtEnd t)) (hu : Tag.lex? u = some l)
    (hl : l.tag = .closing close) (kind : BlockKind) :
    scan kind (t ++ u) = ⟨kind, t, l.rest, some close⟩ := by
  have htags : (tokens 0 t).map Token.tag = tagsIn t := map_tag_tokens 0 t
  -- the text closes all its own blocks, so the closing tag behind it is the one
  have hcut := closeAt_append_cons (htags.symm ▸ h.closesWithin) (htags.symm ▸ h.closings_eq)
    (k := l.tokenBehind t) (Tag.isClosing_iff.2 ⟨close, hl⟩) (tokens (l.tokenBehind t).stop l.rest)
  rw [← tokens_append_of_lex? hend hu] at hcut
  obtain ⟨close', htag, hclose, hc⟩ := scan_of_closeAt kind hcut
  obtain rfl : close' = close := Tag.closing.inj (htag.symm.trans hl)
  obtain ⟨hbody, hrest⟩ := Cut.mk.inj (hc.eq_of_append hend hu)
  calc scan kind (t ++ u)
      = ⟨(scan kind (t ++ u)).kind, (scan kind (t ++ u)).body, (scan kind (t ++ u)).rest,
          (scan kind (t ++ u)).close⟩ := rfl
    _ = ⟨kind, t, l.rest, some close'⟩ := by rw [kind_scan, hbody, hrest, hclose]

/-- A block that is closed is the text up to the closing tag, and what is behind it. Its body is
balanced. -/
theorem scan_cuts_at_closeAt (kind : BlockKind) {content : Text} {x : TokenCut}
    (hx : closeAt 0 (tokens 0 content) = some x) :
    let b := scan kind content
    ∃ close, x.token.tag = .closing close ∧ b.close = some close ∧
      content = b.body ++ x.token.lexeme ++ b.rest ∧ x.token.start = b.body.size ∧
      Tag.Balanced (tagsIn b.body) := by
  intro b
  obtain ⟨close, hclose, hbclose, hc⟩ := scan_of_closeAt kind hx
  obtain ⟨hwithin, htotal⟩ := closesWithin_of_closeAt hx
  have hall := all_of_cutAt hx
  have hbody : tagsIn b.body = x.before.map Token.tag := hc.tagsIn_before
  refine ⟨close, hclose, hbclose, hc.text_eq hall, ?_, ?_⟩
  · exact (hc.start_eq hall).trans (Nat.zero_add _)
  · rw [hbody]
    exact ⟨hwithin, htotal⟩

/-- **A block ends** at the first tag with which the closing tags behind its opening tag are in the
majority, and at the end of the text if there is none. What the block is and what is behind it make
up the text together with that tag; the body is balanced; the kind of the opening tag does not
matter, and neither does what follows the text, if the block is closed in it. -/
theorem scan_cuts_at_surplus (kind : BlockKind) (content : Text) :
    let b := scan kind content
    ((∃ ks, ks <+: tokens 0 content ∧ Tag.HasSurplus (ks.map Token.tag)) →
        ∃ ks k close, ks ++ [k] <+: tokens 0 content ∧
          Tag.HasSurplus ((ks ++ [k]).map Token.tag) ∧
          (∀ ls, ls <+: ks → ¬ Tag.HasSurplus (ls.map Token.tag)) ∧
          k.tag = .closing close ∧ b.close = some close ∧
          content = b.body ++ k.lexeme ++ b.rest ∧ k.start = b.body.size ∧
          Tag.Balanced (tagsIn b.body)) ∧
      ((∀ ks, ks <+: tokens 0 content → ¬ Tag.HasSurplus (ks.map Token.tag)) →
        b = ⟨kind, content, [], none⟩) ∧
      (∀ kind', scan kind' content = { b with kind := kind' }) ∧
      ∀ more, b.isClosed → scan kind (content ++ more) = { b with rest := b.rest ++ more } := by
  intro b
  refine ⟨?_, ?_, fun kind' => scan_kind kind kind' content, fun more h => scan_append h more⟩
  · rintro ⟨ls, hls, hsurplus⟩
    cases hx : closeAt 0 (tokens 0 content) with
    | none =>
      have hwithin := Tag.closesWithin_zero_iff.1 (closeAt_eq_none_iff.1 hx)
      exact absurd hsurplus (hwithin _ (hls.map Token.tag))
    | some x =>
      obtain ⟨hsurplus, hleast⟩ := hasSurplus_of_closeAt hx
      obtain ⟨close, hcuts⟩ := scan_cuts_at_closeAt kind hx
      have hprefix : x.before ++ [x.token] <+: tokens 0 content := by
        refine ⟨x.after, ?_⟩
        rw [← all_of_cutAt hx, List.append_assoc]
        rfl
      exact ⟨x.before, x.token, close, hprefix, hsurplus, hleast, hcuts⟩
  · intro hnone
    have hcut : closeAt 0 (tokens 0 content) = none := by
      rw [closeAt_eq_none_iff, Tag.closesWithin_zero_iff]
      intro p hp
      -- a beginning of the tags is that of a beginning of the tokens
      obtain ⟨ks, hks, rfl⟩ := List.prefix_map_iff.1 hp
      exact hnone ks hks
    exact scan_of_closeAt_none kind hcut

/-- Neither the kinds of the tags matter, nor two brackets right before the closing tag. -/
example :
    let body := "\x7b\x7b#each x\x7d\x7d\x7b\x7b/if\x7d\x7d\x7b\x7b".toList
    Block.scan .cond (body ++ "\x7b\x7b/unless\x7d\x7db".toList)
      = ⟨.cond, body, ['b'], some .notCond⟩ := by cbv

end Block

end Stencil
