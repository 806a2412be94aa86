import Stencil.Tag.Stream

/-!
# Blocks

A block runs from its opening tag to the tag that closes it. Closing tags are matched by counting:
every opening tag goes one level deeper, whatever its kind, and every closing tag comes back up one
level. So a closing tag of another kind closes a block too, and a block that nothing closes runs to
the end of the text. The body of a block may have two branches, which the first `{{else}}` outside
of inner blocks separates.

* `closeIn?_eq_some`, `elseIn?_eq_some` — a closing tag and a separating tag split the text that
  they stand in, and lose nothing of it;
* `Block.length_body_le`, `Block.length_rest_le`, `length_splitElse_fst_le`,
  `length_splitElse_snd_le` — the parts of a block are no longer than the text it stands in, which
  is why rendering ends.
-/

namespace Stencil

/-! ### The end of a block -/

/-- A text split at one of its tags, of which only the texts on both sides are kept. -/
structure Cut where
  before : Text
  after : Text
  deriving DecidableEq, Repr

/-- The cut of a text that has `t` in front. -/
def Cut.push (t : Text) (c : Cut) : Cut :=
  { c with before := t ++ c.before }

/-- The cut at the closing tag of a block, and the kind of that tag, when `depth` blocks inside the
block are open before the tags `stream`. -/
def closeIn? (depth : Nat) : List TagSplit → Option (BlockKind × Cut)
  | [] => none
  | s :: stream =>
    match s.tag, depth with
    | .closing kind, 0 => some (kind, ⟨s.before, s.rest⟩)
    | .closing _, depth + 1 => (closeIn? depth stream).map fun c => (c.1, c.2.push s.upTo)
    | .opening .., depth => (closeIn? (depth + 1) stream).map fun c => (c.1, c.2.push s.upTo)
    | _, depth => (closeIn? depth stream).map fun c => (c.1, c.2.push s.upTo)

theorem closeIn?_eq_some {depth : Nat} {t : Text} {stream : List TagSplit} {kind : BlockKind}
    {c : Cut} (hs : SplitsOf t stream) (h : closeIn? depth stream = some (kind, c)) :
    ∃ lexeme, t = c.before ++ lexeme ++ c.after ∧
      Tag.lex? (lexeme ++ c.after) = some ⟨.closing kind, lexeme, c.after⟩ := by
  induction stream generalizing depth t c with
  | nil => simp [closeIn?] at h
  | cons s stream ih =>
    obtain ⟨hnext, hstream⟩ := hs
    -- every tag but the closing one only adds to the text before the cut
    have further {d : Nat}
        (h : (closeIn? d stream).map (fun c => (c.1, c.2.push s.upTo)) = some (kind, c)) :
        ∃ lexeme, t = c.before ++ lexeme ++ c.after ∧
          Tag.lex? (lexeme ++ c.after) = some ⟨.closing kind, lexeme, c.after⟩ := by
      obtain ⟨⟨kind', c'⟩, hc, heq⟩ := Option.map_eq_some_iff.1 h
      obtain ⟨rfl, rfl⟩ := Prod.mk.injEq .. ▸ heq
      obtain ⟨lexeme, ht, hlex⟩ := ih hstream hc
      refine ⟨lexeme, ?_, hlex⟩
      rw [← source_eq hnext, TagSplit.source, ht]
      simp [Cut.push, TagSplit.upTo]
    unfold closeIn? at h
    split at h
    · next k htag =>
      obtain ⟨rfl, rfl⟩ := Prod.mk.injEq .. ▸ Option.some.inj h
      exact ⟨s.lexeme, (source_eq hnext).symm, htag ▸ lex?_of_nextTag hnext⟩
    · exact further h
    · exact further h
    · exact further h

/-- A **block**, after its opening tag. -/
structure Block where
  /-- The kind of the opening tag. -/
  kind : BlockKind
  /-- What stands between the opening tag and the closing one. -/
  body : Text
  /-- What stands after the closing tag. -/
  rest : Text
  /-- The kind of the closing tag; `none` if the text ended first. -/
  close : Option BlockKind
  deriving DecidableEq, Repr

namespace Block

/-- The block of the given kind whose opening tag stands in front of `content`. -/
def scan (kind : BlockKind) (content : Text) : Block :=
  match closeIn? 0 (tags content) with
  | some (close, c) => ⟨kind, c.before, c.after, some close⟩
  | none => ⟨kind, content, [], none⟩

/-- Whether a tag closes the block. -/
def isClosed (b : Block) : Bool :=
  b.close.isSome

/-- Whether a tag of another kind closes the block, which most likely is a slip. -/
def isMismatched (b : Block) : Bool :=
  b.close.any (· ≠ b.kind)

@[simp] theorem kind_scan (kind : BlockKind) (content : Text) :
    (scan kind content).kind = kind := by
  rw [scan]
  split <;> rfl

theorem length_scan_le (kind : BlockKind) (content : Text) :
    (scan kind content).body.length + (scan kind content).rest.length ≤ content.length := by
  rw [scan]
  split
  · next close c hc =>
    obtain ⟨lexeme, ht, -⟩ := closeIn?_eq_some (splitsOf_tags content) hc
    have := congrArg List.length ht
    simp only [List.length_append] at this
    simp only
    omega
  · simp

theorem length_body_le (kind : BlockKind) (content : Text) :
    (scan kind content).body.length ≤ content.length := by
  have := length_scan_le kind content
  omega

theorem length_rest_le (kind : BlockKind) (content : Text) :
    (scan kind content).rest.length ≤ content.length := by
  have := length_scan_le kind content
  omega

end Block

/-! ### The branches of a body -/

/-- The cut at the first separating tag outside of inner blocks, when `depth` of those are open
before the tags `stream`. -/
def elseIn? (depth : Nat) : List TagSplit → Option Cut
  | [] => none
  | s :: stream =>
    match s.tag, depth with
    | .alternative, 0 => some ⟨s.before, s.rest⟩
    | .opening .., depth => (elseIn? (depth + 1) stream).map (.push s.upTo)
    | .closing _, depth => (elseIn? (depth - 1) stream).map (.push s.upTo)
    | _, depth => (elseIn? depth stream).map (.push s.upTo)

theorem elseIn?_eq_some {depth : Nat} {t : Text} {stream : List TagSplit} {c : Cut}
    (hs : SplitsOf t stream) (h : elseIn? depth stream = some c) :
    ∃ lexeme, t = c.before ++ lexeme ++ c.after ∧
      Tag.lex? (lexeme ++ c.after) = some ⟨.alternative, lexeme, c.after⟩ := by
  induction stream generalizing depth t c with
  | nil => simp [elseIn?] at h
  | cons s stream ih =>
    obtain ⟨hnext, hstream⟩ := hs
    -- every tag but one that separates only adds to what stands before the cut
    have further {d : Nat} (h : (elseIn? d stream).map (.push s.upTo) = some c) :
        ∃ lexeme, t = c.before ++ lexeme ++ c.after ∧
          Tag.lex? (lexeme ++ c.after) = some ⟨.alternative, lexeme, c.after⟩ := by
      obtain ⟨c', hc, rfl⟩ := Option.map_eq_some_iff.1 h
      obtain ⟨lexeme, ht, hlex⟩ := ih hstream hc
      refine ⟨lexeme, ?_, hlex⟩
      rw [← source_eq hnext, TagSplit.source, ht]
      simp [Cut.push, TagSplit.upTo]
    unfold elseIn? at h
    split at h
    · next htag =>
      obtain rfl := Option.some.inj h
      exact ⟨s.lexeme, (source_eq hnext).symm, htag ▸ lex?_of_nextTag hnext⟩
    · exact further h
    · exact further h
    · exact further h

/-- The two branches of a body; the second is `none` if no tag separates them. -/
def splitElse (body : Text) : Text × Option Text :=
  match elseIn? 0 (tags body) with
  | some c => (c.before, some c.after)
  | none => (body, none)

theorem length_splitElse_fst_le (body : Text) : (splitElse body).1.length ≤ body.length := by
  rw [splitElse]
  split
  · next c hc =>
    obtain ⟨lexeme, ht, -⟩ := elseIn?_eq_some (splitsOf_tags body) hc
    have := congrArg List.length ht
    simp only [List.length_append] at this
    simp only
    omega
  · simp

theorem length_splitElse_snd_le {body other : Text} (h : (splitElse body).2 = some other) :
    other.length ≤ body.length := by
  rw [splitElse] at h
  split at h
  · next c hc =>
    obtain ⟨lexeme, ht, -⟩ := elseIn?_eq_some (splitsOf_tags body) hc
    obtain rfl := Option.some.inj h
    have := congrArg List.length ht
    simp only [List.length_append] at this
    omega
  · cases h

end Stencil
