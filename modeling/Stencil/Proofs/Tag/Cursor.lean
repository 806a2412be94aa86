import Stencil.Proofs.Render.Checked
import Stencil.Proofs.Tag.Slices

/-!
# A cursor on the tags of a text

Here the walk over the tags of a text, the scan for the end of a block and the search for its
branches keep a cursor in bytes, and slice the text only where they have found something. They end
without a mishap, with what the library makes of the text behind the cursor:

* `nextFrom_eq` — the walk comes to the first tag behind the cursor (`nextTag`). It skips brackets
  that start no tag, two at a time, so this is an induction on the text as `nextTag` reads it;
* `scanFrom_eq` — the scan for the end of a block cuts where `Block.scan` does; the depth that it
  counts is one more than the number of blocks inside that are open, so it never goes below zero;
* `splitFrom_eq` — and the search for branches cuts where `splitElse` does.

In all of them the text falls into what lies before the cursor and what lies behind it, and the
cursor is the size of the first part: it never comes to stand inside a character. The fuel has to
exceed the length of the second part, so each of them ends.
-/

namespace Stencil

/-! ### The walk over the tags -/

/-- The byte at which a character stands for the first time twice in a row. -/
def findPair (b : Char) : Text → Option Nat
  | c :: d :: t =>
    if c = b ∧ d = b then some 0 else (findPair b (d :: t)).map (c.utf8Size + ·)
  | _ => none

/-- The tag at the front of `input`, and how many bytes it takes. -/
def lexFrom (input : Text) : Checked (Option (Tag × Nat)) :=
  match input with
  | '\x7b' :: '\x7b' :: content =>
    match findPair '\x7d' content with
    | none => pure none
    | some stop => do
      let inner ← Checked.slice content 0 stop
      return (Tag.classify? (Text.trim Text.isBlank inner)).map fun tag => (tag, 2 + stop + 2)
  | _ => pure none

/-- The first tag of `source` behind the cursor, with its first byte and the byte behind it. -/
def nextFrom (source : Text) : Nat → Nat → Checked (Option (Nat × Tag × Nat))
  | 0, _ => .unfinished
  | fuel + 1, cursor => do
    let ahead ← Checked.slice source cursor source.size
    match findPair '\x7b' ahead with
    | none => return none
    | some n =>
      let start := cursor + n
      let input ← Checked.slice source start source.size
      match ← lexFrom input with
      | some (tag, size) => return some (start, tag, start + size)
      -- brackets that start no tag are text, and the search goes on right behind them
      | none => nextFrom source fuel (start + 2)

theorem findPair_cons {b c : Char} {t : Text} (h : ¬ (c = b ∧ t.head? = some b)) :
    findPair b (c :: t) = (findPair b t).map (c.utf8Size + ·) := by
  cases t with
  | nil => rfl
  | cons d t =>
    rw [findPair, if_neg]
    rintro ⟨hc, hd⟩
    exact h ⟨hc, congrArg some hd⟩

theorem findPair_close (t : Text) :
    findPair '\x7d' t = (cutAtClose? t).map fun cut => cut.1.size := by
  induction t using cutAtClose?.induct with
  | case1 t => rfl
  | case2 c t hne ih =>
    have hhead := not_doubled hne
    rw [findPair_cons hhead, cutAtClose?_cons hhead, ih, Option.map_map, Option.map_map]
    rfl
  | case3 => rfl

theorem lexFrom_eq (input : Text) :
    lexFrom input = pure ((Tag.lex? input).map fun l => (l.tag, l.lexeme.size)) := by
  by_cases h : ∃ content, input = '\x7b' :: '\x7b' :: content
  · obtain ⟨content, rfl⟩ := h
    rw [lexFrom, Tag.lex?, findPair_close]
    cases hcut : cutAtClose? content with
    | none => rfl
    | some cut =>
      have hinner : Checked.slice content 0 cut.1.size = pure cut.1 := by
        refine Checked.slice_eq_pure [] cut.1 ('\x7d' :: '\x7d' :: cut.2) ?_ rfl ?_
        · exact cutAtClose?_eq_some hcut
        · exact (Nat.zero_add _).symm
      simp only [Option.map_some, hinner, pure_bind, Option.bind_eq_bind, Option.bind_some]
      cases Tag.classify? (Text.trim Text.isBlank cut.1) with
      | none => rfl
      | some tag =>
        -- the brackets take two bytes on either side
        have hsize : Text.size ('\x7b' :: '\x7b' :: cut.1 ++ ['\x7d', '\x7d'])
            = 2 + cut.1.size + 2 := by
          rw [Text.size_append, Text.size_cons, Text.size_cons, ← Nat.add_assoc]
          rfl
        simp only [Option.map_some, Option.bind_some, Option.pure_def, hsize]
  · have hnone : Tag.lex? input = none := by
      unfold Tag.lex?
      split
      · next content => exact absurd ⟨content, rfl⟩ h
      · rfl
    rw [hnone]
    unfold lexFrom
    split
    · next content => exact absurd ⟨content, rfl⟩ h
    · rfl

/-- A character that does not stand twice is passed by. -/
theorem nextFrom_cons {c : Char} {t : Text} (h : ¬ (c = '\x7b' ∧ t.head? = some '\x7b'))
    (fuel : Nat) (done : Text) :
    nextFrom (done ++ c :: t) fuel done.size
      = nextFrom (done ++ [c] ++ t) fuel (Text.size (done ++ [c])) := by
  have hsource : done ++ c :: t = done ++ [c] ++ t := by simp
  have hsize : Text.size (done ++ [c]) = done.size + c.utf8Size := Text.size_append ..
  cases fuel with
  | zero => rfl
  | succ fuel =>
    -- both searches go on from the character, which begins no tag
    rw [nextFrom, nextFrom, Checked.slice_behind, Checked.slice_behind, pure_bind, pure_bind,
      findPair_cons h, hsource, hsize]
    cases findPair '\x7b' t with
    | none => rfl
    | some n => simp only [Option.map_some, Nat.add_assoc]

/-- Two brackets are a tag, or are passed by. -/
theorem nextFrom_brackets (fuel : Nat) (done t : Text) :
    nextFrom (done ++ '\x7b' :: '\x7b' :: t) (fuel + 1) done.size
      = match Tag.lex? ('\x7b' :: '\x7b' :: t) with
        | some l => pure (some (done.size, l.tag, done.size + l.lexeme.size))
        | none =>
          nextFrom (done ++ ['\x7b', '\x7b'] ++ t) fuel (Text.size (done ++ ['\x7b', '\x7b'])) := by
  have hsource : done ++ '\x7b' :: '\x7b' :: t = done ++ ['\x7b', '\x7b'] ++ t := by simp
  have hsize : Text.size (done ++ ['\x7b', '\x7b']) = done.size + 2 := Text.size_append ..
  rw [nextFrom, Checked.slice_behind, pure_bind, findPair, if_pos ⟨rfl, rfl⟩]
  simp only [Nat.add_zero, Checked.slice_behind, pure_bind, lexFrom_eq]
  cases Tag.lex? ('\x7b' :: '\x7b' :: t) with
  | some l => rfl
  | none => rw [Option.map_none, hsize, hsource]

/-- What the walk gives of a tag in its place. -/
def Token.item (k : Token) : Nat × Tag × Nat :=
  (k.start, k.tag, k.stop)

/-- A character in front of the text before a tag moves the tag. -/
theorem item_token_push (s : TagSplit) (c : Char) (offset : Nat) :
    ((s.push c).token offset).item = (s.token (offset + c.utf8Size)).item := by
  simp [Token.item, Token.stop, TagSplit.token, TagSplit.push, Nat.add_assoc]

/-- **The walk over the tags** comes to the first tag behind the cursor. -/
theorem nextFrom_eq {fuel : Nat} {t : Text} (hfuel : t.length < fuel) (done : Text) :
    nextFrom (done ++ t) fuel done.size
      = pure ((nextTag t).map fun s => (s.token done.size).item) := by
  induction t using nextTag.induct generalizing fuel done with
  | case1 t l hl =>
    obtain ⟨fuel, rfl⟩ : ∃ n, fuel = n + 1 := ⟨fuel - 1, by omega⟩
    rw [nextFrom_brackets, nextTag, hl]
    rfl
  | case2 t hl ih =>
    obtain ⟨fuel, rfl⟩ : ∃ n, fuel = n + 1 := ⟨fuel - 1, by omega⟩
    rw [List.length_cons, List.length_cons] at hfuel
    -- brackets that begin no tag are passed over, and count as text in front of the next tag
    have hitem (s : TagSplit) : (s.token (Text.size (done ++ ['\x7b', '\x7b']))).item
        = (((s.push '\x7b').push '\x7b').token done.size).item := by
      rw [item_token_push, item_token_push, Text.size_append, Nat.add_assoc]
      rfl
    have hlt : t.length < fuel := by omega
    have hbehind := ih hlt (done ++ ['\x7b', '\x7b'])
    rw [nextFrom_brackets, nextTag, hl]
    simp only [hbehind, hitem, Option.map_map, Function.comp_def]
  | case3 c t hne ih =>
    have hhead := not_doubled hne
    rw [List.length_cons] at hfuel
    have hitem (s : TagSplit) : (s.token (Text.size (done ++ [c]))).item
        = ((s.push c).token done.size).item := by
      rw [item_token_push, Text.size_append]
      rfl
    rw [nextFrom_cons hhead, nextTag_cons hhead, ih (by omega)]
    simp only [hitem, Option.map_map, Function.comp_def]
  | case4 =>
    obtain ⟨fuel, rfl⟩ : ∃ n, fuel = n + 1 := ⟨fuel - 1, by omega⟩
    rw [nextFrom, Checked.slice_behind]
    rfl

/-! ### The end of a block and its branches -/

/-- The block of the given kind whose content is `content`, when `depth` blocks are open before the
cursor, itself included. -/
def scanFrom (kind : BlockKind) (content : Text) : Nat → Nat → Nat → Checked Block
  | 0, _, _ => .unfinished
  | fuel + 1, depth, cursor => do
    match ← nextFrom content fuel cursor with
    | none => return ⟨kind, content, [], none⟩
    | some (start, tag, stop) =>
      match tag with
      | .opening .. => scanFrom kind content fuel (depth + 1) stop
      | .closing close => do
        let depth ← Checked.minus depth 1
        if depth = 0 then
          let body ← Checked.slice content 0 start
          let rest ← Checked.slice content stop content.size
          return ⟨kind, body, rest, some close⟩
        else
          scanFrom kind content fuel depth stop
      | _ => scanFrom kind content fuel depth stop

/-- The branches of a body, when `depth` inner blocks are open before the cursor. -/
def splitFrom (body : Text) : Nat → Nat → Nat → Checked (Text × Option Text)
  | 0, _, _ => .unfinished
  | fuel + 1, depth, cursor => do
    match ← nextFrom body fuel cursor with
    | none => return (body, none)
    | some (start, tag, stop) =>
      match tag, depth with
      | .alternative, 0 =>
        let first ← Checked.slice body 0 start
        let other ← Checked.slice body stop body.size
        return (first, some other)
      | .opening .., depth => splitFrom body fuel (depth + 1) stop
      -- a closing tag of no inner block changes nothing, so this difference has no condition
      | .closing _, depth => splitFrom body fuel (depth - 1) stop
      | _, depth => splitFrom body fuel depth stop

section Tags

variable {t : Text} {s : TagSplit} (h : nextTag t = some s)
include h

theorem append_upTo_append_rest (done : Text) : done ++ t = done ++ s.upTo ++ s.rest := by
  rw [List.append_assoc, TagSplit.upTo_append_rest h]

/-- The slice from a place up to the next tag. -/
theorem slice_before_tag (done waiting : Text) :
    Checked.slice (done ++ waiting ++ t) done.size (s.token (Text.size (done ++ waiting))).start
      = pure (waiting ++ s.before) := by
  refine Checked.slice_eq_pure done (waiting ++ s.before) (s.lexeme ++ s.rest) ?_ rfl ?_
  · rw [← source_eq h, TagSplit.source]
    simp
  · simp only [TagSplit.token, Text.size_append, Nat.add_assoc]

/-- The slice from a tag to the end. -/
theorem slice_behind_tag (done : Text) :
    Checked.slice (done ++ t) (s.token done.size).stop (done ++ t).size = pure s.rest := by
  rw [stop_token, ← Text.size_append, append_upTo_append_rest h, Checked.slice_behind]

end Tags

theorem Cut.push_append (s t : Text) : Cut.push (s ++ t) = Cut.push s ∘ Cut.push t := by
  funext c
  simp [Cut.push]

/-- The block of a text that has been cut at a closing tag, if it has. -/
def Block.ofCut (kind : BlockKind) (content : Text) : Option (BlockKind × Cut) → Block
  | some (close, c) => ⟨kind, c.before, c.after, some close⟩
  | none => ⟨kind, content, [], none⟩

/-- The branches of a body that has been cut at a separating tag, if it has. -/
def branchesOfCut (body : Text) : Option Cut → Text × Option Text
  | some c => (c.before, some c.after)
  | none => (body, none)

/-- The scan from a cursor cuts the text behind it. -/
theorem scanFrom_append (kind : BlockKind) {fuel : Nat} {t : Text} (hfuel : t.length + 1 < fuel)
    (depth : Nat) (done : Text) :
    scanFrom kind (done ++ t) fuel (depth + 1) done.size
      = pure (.ofCut kind (done ++ t)
          ((closeIn? depth (tags t)).map fun c => (c.1, c.2.push done))) := by
  induction t using tags.induct generalizing fuel depth done with
  | case1 t h =>
    obtain ⟨fuel, rfl⟩ : ∃ n, fuel = n + 1 := ⟨fuel - 1, by omega⟩
    rw [scanFrom, nextFrom_eq (by omega), h, tags_of_nextTag_none h]
    rfl
  | case2 t s h ih =>
    obtain ⟨fuel, rfl⟩ : ∃ n, fuel = n + 1 := ⟨fuel - 1, by omega⟩
    have hlt := rest_lt_of_nextTag h
    -- what the scan goes on with is the text behind the tag, with the tag before the cursor
    have further (depth : Nat) :
        scanFrom kind (done ++ t) fuel (depth + 1) (s.token done.size).stop
          = pure (.ofCut kind (done ++ t)
              (((closeIn? depth (tags s.rest)).map fun c => (c.1, c.2.push s.upTo)).map
                fun c => (c.1, c.2.push done))) := by
      rw [append_upTo_append_rest h, stop_token, ← Text.size_append, ih (by omega),
        Option.map_map, Cut.push_append]
      rfl
    have hbody := slice_before_tag h [] done
    have hrest := slice_behind_tag h done
    rw [scanFrom, nextFrom_eq (by omega), h, tags_of_nextTag h, closeIn?.eq_def]
    simp only [Option.map_some, pure_bind, Token.item, tag_token]
    cases htag : s.tag with
    | closing close =>
      simp only [Checked.minus_eq_pure (Nat.le_add_left 1 depth), pure_bind, Nat.add_sub_cancel]
      cases depth with
      | zero =>
        simp only [List.nil_append, Text.size_nil] at hbody
        simp only [hbody, hrest, pure_bind]
        rfl
      | succ depth => exact further depth
    | opening k path => exact further (depth + 1)
    | inclusion name => exact further depth
    | alternative => exact further depth
    | value path => exact further depth

/-- **The scan for the end of a block** cuts where the library does. -/
theorem scanFrom_eq (kind : BlockKind) {fuel : Nat} {content : Text}
    (hfuel : content.length + 1 < fuel) :
    scanFrom kind content fuel 1 0 = pure (Block.scan kind content) := by
  have hscan := scanFrom_append kind hfuel 0 []
  rw [List.nil_append, Text.size_nil] at hscan
  rw [hscan, Block.scan]
  cases closeIn? 0 (tags content) with
  | none => rfl
  | some c => rfl

/-- The search from a cursor cuts the text behind it. -/
theorem splitFrom_append {fuel : Nat} {t : Text} (hfuel : t.length + 1 < fuel) (depth : Nat)
    (done : Text) :
    splitFrom (done ++ t) fuel depth done.size
      = pure (branchesOfCut (done ++ t) ((elseIn? depth (tags t)).map (.push done))) := by
  induction t using tags.induct generalizing fuel depth done with
  | case1 t h =>
    obtain ⟨fuel, rfl⟩ : ∃ n, fuel = n + 1 := ⟨fuel - 1, by omega⟩
    rw [splitFrom, nextFrom_eq (by omega), h, tags_of_nextTag_none h]
    rfl
  | case2 t s h ih =>
    obtain ⟨fuel, rfl⟩ : ∃ n, fuel = n + 1 := ⟨fuel - 1, by omega⟩
    have hlt := rest_lt_of_nextTag h
    -- the search goes on behind the tag, and what it finds lies so much further on
    have further (depth : Nat) :
        splitFrom (done ++ t) fuel depth (s.token done.size).stop
          = pure (branchesOfCut (done ++ t)
              (((elseIn? depth (tags s.rest)).map (.push s.upTo)).map (.push done))) := by
      rw [append_upTo_append_rest h, stop_token, ← Text.size_append, ih (by omega),
        Option.map_map, Cut.push_append]
    have hfirst := slice_before_tag h [] done
    have hother := slice_behind_tag h done
    rw [splitFrom, nextFrom_eq (by omega), h, tags_of_nextTag h, elseIn?.eq_def]
    simp only [Option.map_some, pure_bind, Token.item, tag_token]
    cases htag : s.tag with
    | alternative =>
      cases depth with
      | zero =>
        simp only [List.nil_append, Text.size_nil] at hfirst
        simp only [hfirst, hother, pure_bind]
        rfl
      | succ depth => exact further (depth + 1)
    | opening k path => exact further (depth + 1)
    | closing k => exact further (depth - 1)
    | inclusion name => exact further depth
    | value path => exact further depth

/-- **The search for the branches** of a body cuts where the library does. -/
theorem splitFrom_eq {fuel : Nat} {body : Text} (hfuel : body.length + 1 < fuel) :
    splitFrom body fuel 0 0 = pure (splitElse body) := by
  have hsplit := splitFrom_append hfuel 0 []
  rw [List.nil_append, Text.size_nil] at hsplit
  rw [hsplit, splitElse]
  cases elseIn? 0 (tags body) with
  | none => rfl
  | some c => rfl

end Stencil
