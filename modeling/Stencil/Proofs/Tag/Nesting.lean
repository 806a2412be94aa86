import Stencil.Block
import Stencil.Proofs.Tag.Token

/-!
# Where blocks end, in tokens

The scan for the end of a block and the search for its other branch walk over the tags of a text and
cut the text. On tokens both are cuts of a list at the first tag of some kind that stands outside of
inner blocks (`cutAt`), and this module says that they are the same cuts:

* `Block.scan_of_closeAt`, `Block.scan_of_closeAt_none` — the body of a block and what follows it
  have the tokens on both sides of the closing tag;
* `splitElse_of_alternativeAt`, `splitElse_of_alternativeAt_none` — so have the two branches of a
  body those on both sides of the separating tag.

The tokens of the parts come with their places in the source, so what the renderer works out as an
offset is read off the token at which the text was cut (`Cut.Agrees`). Only the text of this token
is lost (`Cut.Agrees.text_eq`).

A cut is told by the tag at which it is made, and by what stands before that: no cut, and no block
that is open (`cutAt_before`, `depthBehind_before`, `cutAt_append_cons`). What stands behind the tag
makes no difference (`cutAt_append`). A cut further out stands behind the tags that close the blocks
further in (`cutAt_add`).
-/

namespace Stencil

/-! ### Cuts of a list of tokens -/

/-- Tokens cut at one of them. -/
structure TokenCut where
  before : List Token
  token : Token
  after : List Token
  deriving DecidableEq, Repr

namespace TokenCut

/-- The cut of tokens that have `k` in front. -/
def push (k : Token) (x : TokenCut) : TokenCut :=
  { x with before := k :: x.before }

/-- The tokens that were cut. -/
def all (x : TokenCut) : List Token :=
  x.before ++ x.token :: x.after

/-- The cut `y` of what follows the cut `x`, as a cut of all the tokens. -/
def join (x y : TokenCut) : TokenCut :=
  { y with before := x.before ++ x.token :: y.before }

@[simp] theorem before_push (k : Token) (x : TokenCut) : (x.push k).before = k :: x.before := rfl

@[simp] theorem token_push (k : Token) (x : TokenCut) : (x.push k).token = x.token := rfl

@[simp] theorem after_push (k : Token) (x : TokenCut) : (x.push k).after = x.after := rfl

@[simp] theorem before_join (x y : TokenCut) :
    (x.join y).before = x.before ++ x.token :: y.before := rfl

@[simp] theorem token_join (x y : TokenCut) : (x.join y).token = y.token := rfl

@[simp] theorem after_join (x y : TokenCut) : (x.join y).after = y.after := rfl

end TokenCut

namespace Tag

/-- How many blocks are open behind a tag, when `depth` are open before it. -/
def depthAfter (depth : Nat) : Tag → Nat
  | .opening .. => depth + 1
  | .closing _ => depth - 1
  | _ => depth

/-- How many blocks are open behind some tags, when `depth` are open before them. -/
def depthBehind (depth : Nat) (l : List Tag) : Nat :=
  l.foldl depthAfter depth

@[simp] theorem depthBehind_nil (depth : Nat) : depthBehind depth [] = depth := rfl

@[simp] theorem depthBehind_cons (depth : Nat) (tag : Tag) (l : List Tag) :
    depthBehind depth (tag :: l) = depthBehind (tag.depthAfter depth) l := rfl

@[simp] theorem depthBehind_append (depth : Nat) (l m : List Tag) :
    depthBehind depth (l ++ m) = depthBehind (depthBehind depth l) m :=
  List.foldl_append

/-- The kinds of the blocks that are open behind a tag, the innermost one first, when `kinds` are
open before it. -/
def kindsAfter (kinds : List BlockKind) : Tag → List BlockKind
  | .opening kind _ => kind :: kinds
  | .closing _ => kinds.tail
  | _ => kinds

theorem length_kindsAfter (kinds : List BlockKind) (tag : Tag) :
    (kindsAfter kinds tag).length = depthAfter kinds.length tag := by
  cases tag <;> simp [kindsAfter, depthAfter]

theorem length_foldl_kindsAfter (kinds : List BlockKind) (l : List Tag) :
    (l.foldl kindsAfter kinds).length = depthBehind kinds.length l := by
  induction l generalizing kinds with
  | nil => rfl
  | cons tag l ih => rw [List.foldl_cons, ih, length_kindsAfter, depthBehind_cons]

/-- Whether a tag closes a block. -/
def isClosing : Tag → Bool
  | .closing _ => true
  | _ => false

/-- The kind of the block that a tag closes, by the name in the tag. -/
def closedKind? : Tag → Option BlockKind
  | .closing kind => some kind
  | _ => none

/-- Whether a tag separates branches. -/
def isAlternative : Tag → Bool
  | .alternative => true
  | _ => false

theorem isClosing_iff {tag : Tag} : tag.isClosing ↔ ∃ kind, tag = .closing kind := by
  cases tag <;> simp [isClosing]

theorem isAlternative_iff {tag : Tag} : tag.isAlternative ↔ tag = .alternative := by
  cases tag <;> simp [isAlternative]

end Tag

/-- The cut at the first tag that `hit` and that stands outside of all blocks, when `depth` blocks
are open before the tokens. -/
def cutAt (hit : Tag → Bool) (depth : Nat) : List Token → Option TokenCut
  | [] => none
  | k :: ks =>
    if depth = 0 ∧ hit k.tag then some ⟨[], k, ks⟩
    else (cutAt hit (k.tag.depthAfter depth) ks).map (.push k)

/-- The cut at the tag that closes a block, when `depth` blocks inside the block are open before the
tokens. -/
abbrev closeAt : Nat → List Token → Option TokenCut :=
  cutAt Tag.isClosing

/-- The cut at the tag that separates the branches of a body, when `depth` inner blocks are open
before the tokens. -/
abbrev alternativeAt : Nat → List Token → Option TokenCut :=
  cutAt Tag.isAlternative

section Cuts

variable {hit : Tag → Bool} {depth : Nat} {k : Token} {ks : List Token} {x : TokenCut}

theorem cutAt_of_hit (h : hit k.tag) (ks : List Token) :
    cutAt hit 0 (k :: ks) = some ⟨[], k, ks⟩ := by
  rw [cutAt, if_pos ⟨rfl, h⟩]

theorem cutAt_of_not_hit (h : hit k.tag = false) (depth : Nat) (ks : List Token) :
    cutAt hit depth (k :: ks) = (cutAt hit (k.tag.depthAfter depth) ks).map (.push k) := by
  rw [cutAt, if_neg]
  simp [h]

theorem cutAt_succ (hit : Tag → Bool) (depth : Nat) (k : Token) (ks : List Token) :
    cutAt hit (depth + 1) (k :: ks)
      = (cutAt hit (k.tag.depthAfter (depth + 1)) ks).map (.push k) := by
  rw [cutAt, if_neg]
  simp

theorem hit_of_cutAt (h : cutAt hit depth ks = some x) : hit x.token.tag := by
  induction ks generalizing depth x with
  | nil => cases h
  | cons k ks ih =>
    rw [cutAt] at h
    split at h
    · next hk =>
      obtain rfl := Option.some.inj h
      exact hk.2
    · obtain ⟨x', hx', rfl⟩ := Option.map_eq_some_iff.1 h
      exact ih (x := x') hx'

/-- Cutting loses no token. -/
theorem all_of_cutAt (h : cutAt hit depth ks = some x) : x.all = ks := by
  induction ks generalizing depth x with
  | nil => cases h
  | cons k ks ih =>
    rw [cutAt] at h
    split at h
    · obtain rfl := Option.some.inj h
      rfl
    · obtain ⟨x', hx', rfl⟩ := Option.map_eq_some_iff.1 h
      exact congrArg (k :: ·) (ih hx')

theorem length_of_cutAt (h : cutAt hit depth ks = some x) :
    ks.length = x.before.length + x.after.length + 1 := by
  rw [← all_of_cutAt h, TokenCut.all, List.length_append, List.length_cons, Nat.add_assoc]

/-- In front of the cut there is none. -/
theorem cutAt_before (h : cutAt hit depth ks = some x) : cutAt hit depth x.before = none := by
  induction ks generalizing depth x with
  | nil => cases h
  | cons k ks ih =>
    rw [cutAt] at h
    split at h
    · obtain rfl := Option.some.inj h
      rfl
    -- the token is no hit, and the cut is made behind it
    · next hk =>
      obtain ⟨x', hx', rfl⟩ := Option.map_eq_some_iff.1 h
      rw [TokenCut.before_push, cutAt, if_neg hk, ih (x := x') hx']
      rfl

/-- Where the cut is, no block is open. -/
theorem depthBehind_before (h : cutAt hit depth ks = some x) :
    Tag.depthBehind depth (x.before.map Token.tag) = 0 := by
  induction ks generalizing depth x with
  | nil => cases h
  | cons k ks ih =>
    rw [cutAt] at h
    split at h
    · next hk =>
      obtain rfl := Option.some.inj h
      exact hk.1
    · obtain ⟨x', hx', rfl⟩ := Option.map_eq_some_iff.1 h
      exact ih (x := x') hx'

/-- So a cut is made at a tag that hits, if there is none before it and no block is open there. -/
theorem cutAt_append_cons (hnone : cutAt hit depth ks = none)
    (hdepth : Tag.depthBehind depth (ks.map Token.tag) = 0) (hk : hit k.tag) (ls : List Token) :
    cutAt hit depth (ks ++ k :: ls) = some ⟨ks, k, ls⟩ := by
  induction ks generalizing depth with
  | nil =>
    obtain rfl : depth = 0 := hdepth
    exact cutAt_of_hit hk ls
  | cons l ks ih =>
    -- the first tag is no hit, so the cut is made further on
    rw [cutAt] at hnone
    split at hnone
    · cases hnone
    · next hl =>
      rw [List.cons_append, cutAt, if_neg hl, ih (Option.map_eq_none_iff.1 hnone) hdepth]
      rfl

/-- A cut does not look behind the tag at which it is made. -/
theorem cutAt_append (h : cutAt hit depth ks = some x) (other : List Token) :
    cutAt hit depth (x.before ++ x.token :: other) = some { x with after := other } :=
  cutAt_append_cons (cutAt_before h) (depthBehind_before h) (hit_of_cutAt h) other

/-- A cut further out stands behind the tags that close the blocks further in. -/
theorem cutAt_add (hit : Tag → Bool) (inner outer : Nat) (ks : List Token) :
    cutAt hit (outer + inner + 1) ks
      = (closeAt inner ks).bind fun x => (cutAt hit outer x.after).map x.join := by
  induction ks generalizing inner with
  | nil => rfl
  | cons k ks ih =>
    -- a tag that ends no block which is told of here only stands in front of both sides
    have further (i : Nat) :
        (cutAt hit (outer + i + 1) ks).map (TokenCut.push k)
          = ((closeAt i ks).map (TokenCut.push k)).bind fun x =>
            (cutAt hit outer x.after).map x.join := by
      rw [ih, Option.map_bind, Option.bind_map]
      congr 1
      funext x
      exact Option.map_map ..
    rw [cutAt_succ]
    cases htag : k.tag with
    | closing kind =>
      cases inner with
      | zero =>
        -- this is the tag that closes the blocks further in
        rw [closeAt, cutAt_of_hit (by rw [htag]; rfl), Option.bind_some]
        rfl
      | succ inner =>
        rw [closeAt, cutAt_succ, htag]
        exact further inner
    | opening kind path =>
      rw [closeAt, cutAt_of_not_hit (by rw [htag]; rfl), htag]
      exact further (inner + 1)
    | _ =>
      rw [closeAt, cutAt_of_not_hit (by rw [htag]; rfl), htag]
      exact further inner

end Cuts

/-- Right inside of an opening tag, a cut stands behind the tag that closes the block. -/
theorem cutAt_opening (hit : Tag → Bool) {k : Token} {kind : BlockKind} {path : Text}
    (h : k.tag = .opening kind path) (hhit : hit k.tag = false) (ks : List Token) :
    cutAt hit 0 (k :: ks)
      = ((closeAt 0 ks).bind fun x => (cutAt hit 0 x.after).map x.join).map (.push k) := by
  rw [cutAt_of_not_hit hhit, h]
  exact congrArg (Option.map (TokenCut.push k)) (cutAt_add hit 0 0 ks)

/-! ### Cuts of a text and of its tokens -/

/-- Whether a cut of the text `t`, which begins at byte `offset` of the source, is the cut `x` of
its tokens. -/
structure Cut.Agrees (c : Cut) (x : TokenCut) (offset : Nat) (t : Text) : Prop where
  tokens_before : tokens offset c.before = x.before
  lastText_before : lastText c.before = x.token.before
  tokens_after : tokens x.token.stop c.after = x.after
  lastText_after : lastText c.after = lastText t
  /-- What follows the cut begins behind the token. -/
  place : offset + t.size = x.token.stop + c.after.size
  after_le : c.after.size ≤ t.size

namespace Cut.Agrees

/-- The cut at the first tag. -/
theorem head {t : Text} {s : TagSplit} (h : nextTag t = some s) (offset : Nat) :
    Cut.Agrees ⟨s.before, s.rest⟩ ⟨[], s.token offset, tokens (s.token offset).stop s.rest⟩
      offset t := by
  have hsize := congrArg Text.size (TagSplit.upTo_append_rest h)
  rw [Text.size_append] at hsize
  refine ⟨Stencil.tokens_before h offset, Stencil.lastText_before h, rfl,
    (lastText_of_nextTag h).symm, ?_, ?_⟩
  · change offset + t.size = (s.token offset).stop + s.rest.size
    rw [stop_token]
    omega
  · change s.rest.size ≤ t.size
    omega

/-- The cut at a later tag. -/
theorem push {t : Text} {s : TagSplit} (h : nextTag t = some s) {offset : Nat} {c : Cut}
    {x : TokenCut} (hc : c.Agrees x (s.token offset).stop s.rest) :
    (c.push s.upTo).Agrees (x.push (s.token offset)) offset t := by
  have hsize := congrArg Text.size (TagSplit.upTo_append_rest h)
  rw [Text.size_append] at hsize
  have hplace := hc.place
  have hle := hc.after_le
  rw [stop_token] at hplace
  -- what is behind the cut stays as it is, and the tag comes to what is before it
  refine ⟨?_, ?_, hc.tokens_after, ?_, ?_, ?_⟩
  · change tokens offset (s.upTo ++ c.before) = s.token offset :: x.before
    rw [tokens_upTo_append h, hc.tokens_before]
  · change lastText (s.upTo ++ c.before) = x.token.before
    rw [lastText_upTo_append h, hc.lastText_before]
  · exact hc.lastText_after.trans (lastText_of_nextTag h).symm
  · change offset + t.size = x.token.stop + c.after.size
    omega
  · change c.after.size ≤ t.size
    omega

section Whole

variable {c : Cut} {x : TokenCut} {offset : Nat} {t : Text} (hc : c.Agrees x offset t)
include hc

/-- A cut takes out the text of the tag, and loses nothing else. -/
theorem text_eq (hx : x.all = tokens offset t) : t = c.before ++ x.token.lexeme ++ c.after := by
  calc t = (x.before ++ x.token :: x.after).flatMap Token.text ++ lastText t := by
          rw [show x.before ++ x.token :: x.after = _ from hx, ← eq_flatMap_text]
    _ = x.before.flatMap Token.text ++ x.token.before ++ x.token.lexeme ++
          (x.after.flatMap Token.text ++ lastText t) := by
          simp [Token.text]
    _ = c.before ++ x.token.lexeme ++ c.after := by
          rw [← hc.tokens_before, ← hc.lastText_before, ← eq_flatMap_text, ← hc.tokens_after,
            ← hc.lastText_after, ← eq_flatMap_text]

/-- The tag begins where the text before the cut ends. -/
theorem start_eq (hx : x.all = tokens offset t) : x.token.start = offset + c.before.size := by
  have hsize := congrArg Text.size (hc.text_eq hx)
  have hplace := hc.place
  simp only [Text.size_append, Token.stop] at hsize hplace
  omega

/-- The tag ends where the text behind the cut begins, as one counts back from the end. -/
theorem stop_eq : offset + (t.size - c.after.size) = x.token.stop := by
  have hplace := hc.place
  have hle := hc.after_le
  omega

/-- The tag ends behind the text before the cut and its own. -/
theorem stop_eq_size (hx : x.all = tokens offset t) :
    x.token.stop = offset + (c.before ++ x.token.lexeme).size := by
  rw [Token.stop, hc.start_eq hx, Text.size_append, Nat.add_assoc]

/-- A text that is put together around a tag is cut into what it was put together from. -/
theorem eq_of_tokens {before after : Text} (hbefore : x.before = tokens offset before)
    (hlast : x.token.before = lastText before) (hafter : x.after = tokens x.token.stop after)
    (hlast' : lastText t = lastText after) : c = ⟨before, after⟩ := by
  have hfirst : c.before = before :=
    eq_of_tokens_eq (hc.tokens_before.trans hbefore) (hc.lastText_before.trans hlast)
  have hsecond : c.after = after :=
    eq_of_tokens_eq (hc.tokens_after.trans hafter) (hc.lastText_after.trans hlast')
  rw [← hfirst, ← hsecond]

end Whole

end Cut.Agrees

/-- Cuts that correspond still do so with a tag in front. -/
theorem rel_map_push {α : Type} {r r' : α → TokenCut → Prop} {f : α → α} {k : Token}
    {a : Option α} {b : Option TokenCut} (h : Option.Rel r a b)
    (hf : ∀ c x, r c x → r' (f c) (x.push k)) :
    Option.Rel r' (a.map f) (b.map (.push k)) := by
  cases h with
  | some hr => exact .some (hf _ _ hr)
  | none => exact .none

/-- The scan for a closing tag cuts a text where it cuts its tokens. -/
theorem closeIn?_rel (depth offset : Nat) {t : Text} {stream : List TagSplit}
    (hs : SplitsOf t stream) :
    Option.Rel (fun c x => x.token.tag = .closing c.1 ∧ c.2.Agrees x offset t)
      (closeIn? depth stream) (closeAt depth (tokensOf offset stream)) := by
  induction stream generalizing depth offset t with
  | nil => exact .none
  | cons s stream ih =>
    obtain ⟨hnext, hstream⟩ := hs
    have hhead := Cut.Agrees.head hnext offset
    rw [tokens, tags_of_splitsOf hstream] at hhead
    -- every tag but the closing one only adds to what stands before the cut
    have further (d : Nat) :
        Option.Rel (fun c x => x.token.tag = .closing c.1 ∧ c.2.Agrees x offset t)
          ((closeIn? d stream).map fun c => (c.1, c.2.push s.upTo))
          ((closeAt d (tokensOf (s.token offset).stop stream)).map (.push (s.token offset))) :=
      rel_map_push (ih _ _ hstream) fun c x hc => ⟨hc.1, hc.2.push hnext⟩
    rw [tokensOf]
    unfold closeIn? closeAt cutAt
    rw [tag_token]
    cases htag : s.tag with
    | closing kind =>
      cases depth with
      | zero => exact .some ⟨htag, hhead⟩
      | succ depth => exact further depth
    | opening kind path =>
      rw [if_neg (by simp [Tag.isClosing])]
      exact further (depth + 1)
    | _ =>
      rw [if_neg (by simp [Tag.isClosing])]
      exact further depth

/-- The search for a separating tag cuts a text where it cuts its tokens. -/
theorem elseIn?_rel (depth offset : Nat) {t : Text} {stream : List TagSplit}
    (hs : SplitsOf t stream) :
    Option.Rel (fun c x => c.Agrees x offset t)
      (elseIn? depth stream) (alternativeAt depth (tokensOf offset stream)) := by
  induction stream generalizing depth offset t with
  | nil => exact .none
  | cons s stream ih =>
    obtain ⟨hnext, hstream⟩ := hs
    have hhead := Cut.Agrees.head hnext offset
    rw [tokens, tags_of_splitsOf hstream] at hhead
    -- as for the scan, but here the tag that is looked for counts as an opening one further in
    have further (d : Nat) :
        Option.Rel (fun (c : Cut) x => c.Agrees x offset t)
          ((elseIn? d stream).map (Cut.push s.upTo))
          ((alternativeAt d (tokensOf (s.token offset).stop stream)).map
            (TokenCut.push (s.token offset))) :=
      rel_map_push (ih _ _ hstream) fun c x hc => hc.push hnext
    rw [tokensOf]
    unfold elseIn? alternativeAt cutAt
    rw [tag_token]
    cases htag : s.tag with
    | alternative =>
      cases depth with
      | zero => exact .some hhead
      | succ depth => exact further (depth + 1)
    | closing kind =>
      rw [if_neg (by simp [Tag.isAlternative])]
      exact further (depth - 1)
    | opening kind path =>
      rw [if_neg (by simp [Tag.isAlternative])]
      exact further (depth + 1)
    | _ =>
      rw [if_neg (by simp [Tag.isAlternative])]
      exact further depth

/-! ### Blocks and branches -/

/-- The end of a block that is closed, read off the tokens. -/
theorem Block.scan_of_closeAt {offset : Nat} {t : Text} {x : TokenCut} (kind : BlockKind)
    (h : closeAt 0 (tokens offset t) = some x) :
    ∃ close, x.token.tag = .closing close ∧ (scan kind t).close = some close ∧
      Cut.Agrees ⟨(scan kind t).body, (scan kind t).rest⟩ x offset t := by
  have hrel := closeIn?_rel 0 offset (splitsOf_tags t)
  rw [← tokens, h] at hrel
  cases hc : closeIn? 0 (tags t) with
  | none =>
    rw [hc] at hrel
    cases hrel
  | some c =>
    rw [hc] at hrel
    cases hrel with
    | some hagrees =>
      rw [scan, hc]
      exact ⟨c.1, hagrees.1, rfl, hagrees.2⟩

/-- A block that no tag closes runs to the end. -/
theorem Block.scan_of_closeAt_none {offset : Nat} {t : Text} (kind : BlockKind)
    (h : closeAt 0 (tokens offset t) = none) : scan kind t = ⟨kind, t, [], none⟩ := by
  have hrel := closeIn?_rel 0 offset (splitsOf_tags t)
  rw [← tokens, h] at hrel
  cases hc : closeIn? 0 (tags t) with
  | none => rw [scan, hc]
  | some c =>
    rw [hc] at hrel
    cases hrel

/-- The branches of a body, read off the tokens. -/
theorem splitElse_of_alternativeAt {offset : Nat} {t : Text} {x : TokenCut}
    (h : alternativeAt 0 (tokens offset t) = some x) :
    ∃ c, splitElse t = (c.before, some c.after) ∧ Cut.Agrees c x offset t := by
  have hrel := elseIn?_rel 0 offset (splitsOf_tags t)
  rw [← tokens, h] at hrel
  cases hc : elseIn? 0 (tags t) with
  | none =>
    rw [hc] at hrel
    cases hrel
  | some c =>
    rw [hc] at hrel
    cases hrel with
    | some hagrees => exact ⟨c, by rw [splitElse, hc], hagrees⟩

/-- A body without a separating tag has one branch. -/
theorem splitElse_of_alternativeAt_none {offset : Nat} {t : Text}
    (h : alternativeAt 0 (tokens offset t) = none) : splitElse t = (t, none) := by
  have hrel := elseIn?_rel 0 offset (splitsOf_tags t)
  rw [← tokens, h] at hrel
  cases hc : elseIn? 0 (tags t) with
  | none => rw [splitElse, hc]
  | some c =>
    rw [hc] at hrel
    cases hrel

/-- Where a body with two branches is cut. -/
theorem exists_agrees_of_splitElse_snd (offset : Nat) {t other : Text}
    (h : (splitElse t).2 = some other) :
    ∃ x, alternativeAt 0 (tokens offset t) = some x ∧
      Cut.Agrees ⟨(splitElse t).1, other⟩ x offset t := by
  cases hx : alternativeAt 0 (tokens offset t) with
  | none =>
    rw [splitElse_of_alternativeAt_none hx] at h
    cases h
  | some x =>
    obtain ⟨c, hsplit, hc⟩ := splitElse_of_alternativeAt hx
    rw [hsplit] at h ⊢
    obtain rfl := Option.some.inj h
    exact ⟨x, rfl, hc⟩

end Stencil
