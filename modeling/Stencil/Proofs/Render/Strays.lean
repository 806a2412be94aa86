import Stencil.Proofs.Render.Bodies
import Stencil.Proofs.Render.Calls
import Stencil.Proofs.Tag.Uncut

/-!
# Stray closing tags

A closing tag that the renderer comes to closes nothing, and is text. This module says which closing
tags those are: the ones that stand outside of all blocks of a whole source, be it that of a
template or of a partial (`Call.isClosing_of_copies`).

The renderer goes through a text in a loop, from tag to tag and past the blocks that it finds. Each
round of the loop is a call, which makes the call of the next round (`Call.nextRound?`); the other
calls that a round makes begin loops of their own, on partials and on the sections of a block
(`Call.begins`). The proof joins three things:

* `Call.exists_goesOnTo_iff` — a loop meets the tags that stand outside of all blocks of its text,
  each of them and no others. A round takes the first of these off, so this is an induction on them;
* `Call.meetsNoClosing_on` — a loop on a section of a block meets no closing tag, because no closing
  tag stands outside of all blocks of a section;
* `Call.exists_nextTag_of_copies` — what a round copies of the source holds no byte of a tag, unless
  that is a closing tag which the round meets. Here it matters that slices cut no tag.

What a round writes is what it copies, and what it puts in for its first tag (`Call.writes_eq`);
and all the stray tags of a template are copied (`Call.exists_copies_of_mem_outermost`).
-/

namespace Stencil

/-- **Behind a block** go on the tags outside of all blocks, behind its closing tag; if there is
none, no text is left. -/
theorem Block.outermost_tokens_rest (kind : BlockKind) (offset : Nat) (content : Text) :
    outermost 0 (tokens (offset + (content.size - (scan kind content).rest.size))
        (scan kind content).rest)
      = ((closeAt 0 (tokens offset content)).map fun x => outermost 0 x.after).getD [] := by
  cases hx : closeAt 0 (tokens offset content) with
  | none =>
    rw [scan_of_closeAt_none kind hx, tokens_of_nextTag_none (by rw [nextTag])]
    rfl
  | some x =>
    obtain ⟨close, -, -, hc⟩ := scan_of_closeAt kind hx
    have hafter : tokens x.token.stop (scan kind content).rest = x.after := hc.tokens_after
    rw [hc.stop_eq, hafter]
    rfl

namespace Call

/-! ### Loops -/

/-- The call of the **next round** of a loop: on what is left behind the first tag of a round, or
behind the block that this opens. -/
def nextRound? (c : Call) : Option Call :=
  (nextTag c.part.text).map fun s =>
    match s.tag with
    | .opening kind _ => c.on (c.part.behindBlock s (Block.scan kind s.rest))
    | _ => c.on (c.part.behind s)

/-- The calls with which a round **begins other loops**: on the partial that its first tag includes,
or on the sections of the block that this opens. -/
def begins (partials : Registry) (c : Call) : List Call :=
  match nextTag c.part.text with
  | none => []
  | some s =>
    match s.tag with
    | .inclusion name => (c.onPartial? partials name).toList
    | .opening kind path =>
      ((Block.scan kind s.rest).sections (s.token c.part.offset).stop (c.part.scope.lookup path)
        c.part.scope).map c.on
    | _ => []

/-- Whether the loop that a call begins **goes on to** a round. -/
def GoesOnTo : Call → Call → Prop :=
  Relation.ReflTransGen fun c d => c.nextRound? = some d

/-- Whether no round of the loop that a call begins meets a closing tag. -/
def MeetsNoClosing (c : Call) : Prop :=
  ∀ d s, c.GoesOnTo d → nextTag d.part.text = some s → ¬ s.tag.isClosing

/-- The tags outside of all blocks of the text that a call is on. -/
def outermost (c : Call) : List Token :=
  (Stencil.outermost 0 (tokens c.part.offset c.part.text)).map Prod.fst

section Loops

variable {partials : Registry} {c d : Call} {s : TagSplit}

/-- **The calls that a call makes** are those that begin other loops, and the next round. -/
theorem next_eq (partials : Registry) (c : Call) :
    c.next partials = c.begins partials ++ c.nextRound?.toList := by
  unfold next begins nextRound?
  cases nextTag c.part.text with
  | none => rfl
  | some s =>
    unfold nextAt
    cases htag : s.tag <;> simp only [htag, Option.map_some, Option.toList_some] <;> rfl

theorem mem_next_iff : d ∈ c.next partials ↔ d ∈ c.begins partials ∨ c.nextRound? = some d := by
  rw [next_eq, List.mem_append, Option.mem_toList]

/-- The rounds of a loop are calls that it comes to. -/
theorem reaches_of_goesOnTo (h : c.GoesOnTo d) : c.Reaches partials d := by
  induction h with
  | refl => exact .refl
  | tail _ hround ih => exact ih.tail (mem_next_iff.2 (.inr hround))

/-- A loop stays in its template. -/
theorem template_of_goesOnTo (h : c.GoesOnTo d) : d.template = c.template := by
  induction h with
  | refl => rfl
  | tail _ hround ih =>
    obtain ⟨s, -, rfl⟩ := Option.map_eq_some_iff.1 hround
    rw [← ih]
    split <;> rfl

/-- **Every call** is a round of a loop, which the first call begins or a call that it comes to. -/
theorem exists_goesOnTo_of_reaches (h : c.Reaches partials d) :
    ∃ b, c.Reaches partials b ∧ b.GoesOnTo d ∧
      (b = c ∨ ∃ a, c.Reaches partials a ∧ b ∈ a.begins partials) := by
  induction h with
  | refl => exact ⟨c, .refl, .refl, .inl rfl⟩
  | @tail a d ha hnext ih =>
    rcases mem_next_iff.1 hnext with hbegins | hround
    · exact ⟨d, ha.tail hnext, .refl, .inr ⟨a, ha, hbegins⟩⟩
    · obtain ⟨b, hb, hloop, horigin⟩ := ih
      exact ⟨b, hb, hloop.tail hround, horigin⟩

/-! ### What loops meet -/

/-- Where no tag is left, none stands outside of all blocks. -/
theorem outermost_of_nextTag_none (h : nextTag c.part.text = none) : c.outermost = [] := by
  rw [outermost, tokens_of_nextTag_none h]
  rfl

/-- **A round** takes the first tag off those outside of all blocks, and leaves the others. -/
theorem exists_nextRound?_of_nextTag (h : nextTag c.part.text = some s) :
    ∃ d, c.nextRound? = some d ∧ c.outermost = s.token c.part.offset :: d.outermost := by
  cases htag : s.tag with
  | opening kind path =>
    -- the next round goes on behind the block, in which no tag is outermost
    refine ⟨c.on (c.part.behindBlock s (Block.scan kind s.rest)), ?_, ?_⟩
    · rw [nextRound?, h, Option.map_some, htag]
    · rw [outermost, tokens_of_nextTag h, outermost_opening (by rw [tag_token, htag]),
        ← Block.outermost_tokens_rest kind]
      rfl
  | _ =>
    -- any other tag leaves the depth as it is
    refine ⟨c.on (c.part.behind s), ?_, ?_⟩
    · rw [nextRound?, h, Option.map_some, htag]
    · have hdepth : (s.token c.part.offset).tag.depthAfter 0 = 0 := by
        rw [tag_token, htag]
        rfl
      rw [outermost, tokens_of_nextTag h, outermost_zero_cons hdepth]
      rfl

/-- **A loop meets** the tags outside of all blocks of its text, each of them and no others. -/
theorem exists_goesOnTo_iff {k : Token} :
    (∃ d s, c.GoesOnTo d ∧ nextTag d.part.text = some s ∧ s.token d.part.offset = k)
      ↔ k ∈ c.outermost := by
  constructor
  · rintro ⟨d, s, hloop, hs, rfl⟩
    induction hloop using Relation.ReflTransGen.head_induction_on with
    | refl =>
      obtain ⟨e, -, hout⟩ := exists_nextRound?_of_nextTag hs
      rw [hout]
      exact List.mem_cons_self
    | @head a b hround _ ih =>
      obtain ⟨s', hs', -⟩ := Option.map_eq_some_iff.1 hround
      obtain ⟨e, he, hout⟩ := exists_nextRound?_of_nextTag hs'
      obtain rfl := Option.some.inj (hround.symm.trans he)
      rw [hout]
      exact List.mem_cons_of_mem _ ih
  -- the first of these tags is met in this round, and the others in later ones
  · intro hk
    induction hout : c.outermost generalizing c with
    | nil =>
      rw [hout] at hk
      cases hk
    | cons first rest ih =>
      cases hs : nextTag c.part.text with
      | none =>
        rw [outermost_of_nextTag_none hs] at hout
        cases hout
      | some s =>
        obtain ⟨e, he, hout'⟩ := exists_nextRound?_of_nextTag hs
        rw [hout'] at hk hout
        obtain ⟨-, hrest⟩ := List.cons.inj hout
        rcases List.mem_cons.1 hk with rfl | hk
        · exact ⟨c, s, .refl, hs, rfl⟩
        · obtain ⟨d, s', hloop, hs', hk'⟩ := ih hk hrest
          exact ⟨d, s', .head he hloop, hs', hk'⟩

/-- A loop on a text that closes no block too many meets no closing tag. -/
theorem meetsNoClosing_of_closesWithin (h : Tag.ClosesWithin 0 (tagsIn c.part.text)) :
    c.MeetsNoClosing := by
  intro d s hloop hs
  have hmem : s.token d.part.offset ∈ c.outermost := exists_goesOnTo_iff.1 ⟨d, s, hloop, hs, rfl⟩
  obtain ⟨x, hx, htoken⟩ := List.mem_map.1 hmem
  have htags : (tokens c.part.offset c.part.text).map Token.tag = tagsIn c.part.text :=
    map_tag_tokens c.part.offset c.part.text
  have hnot := not_isClosing_of_mem_outermost (htags.symm ▸ h) hx
  rwa [htoken, tag_token] at hnot

/-- **A loop on a section of a block** meets no closing tag. -/
theorem meetsNoClosing_on {kind : BlockKind} {content : Text} {offset : Nat} {value : Value}
    {scope : Scope} {x : Section} (hx : x ∈ (Block.scan kind content).sections offset value scope) :
    (c.on x).MeetsNoClosing :=
  meetsNoClosing_of_closesWithin (Block.closesWithin_sections hx)

/-- What a round begins is a loop on a whole source, or one that meets no closing tag. -/
theorem meetsNoClosing_of_mem_begins (h : d ∈ c.begins partials) :
    (∃ depth u, d = whole depth u c.part.scope) ∨ d.MeetsNoClosing := by
  unfold begins at h
  split at h
  · cases h
  · split at h
    · obtain ⟨depth, u, -, -, rfl⟩ := exists_of_onPartial? (Option.mem_toList.1 h)
      exact .inl ⟨depth, u, rfl⟩
    · obtain ⟨x, hx, rfl⟩ := List.mem_map.1 h
      exact .inr (meetsNoClosing_on hx)
    · cases h

/-- **A closing tag is met** in a loop on a whole source, and stands there outside of all blocks. -/
theorem mem_outermost_of_isClosing {t : Template} {depth : Nat} {scope : Scope}
    (h : (whole depth t scope).Reaches partials c) (hs : nextTag c.part.text = some s)
    (hclosing : s.tag.isClosing) :
    s.token c.part.offset ∈ c.template.outermost.map Prod.fst ∧
      ∃ depth' scope', (whole depth t scope).Reaches partials (whole depth' c.template scope') ∧
        (whole depth' c.template scope').GoesOnTo c := by
  obtain ⟨b, hb, hloop, horigin⟩ := exists_goesOnTo_of_reaches h
  -- a loop that meets a closing tag has not begun in a block
  have hwhole : ∃ depth' u scope', b = whole depth' u scope' := by
    rcases horigin with rfl | ⟨a, -, hbegins⟩
    · exact ⟨depth, t, scope, rfl⟩
    · rcases meetsNoClosing_of_mem_begins hbegins with ⟨depth', u, rfl⟩ | hnone
      · exact ⟨depth', u, _, rfl⟩
      · exact absurd hclosing (hnone c s hloop hs)
  obtain ⟨depth', u, scope', rfl⟩ := hwhole
  obtain rfl : c.template = u := template_of_goesOnTo hloop
  exact ⟨exists_goesOnTo_iff.1 ⟨c, s, hloop, hs, rfl⟩, depth', scope', hb, hloop⟩

end Loops

/-! ### What is copied -/

/-- What a call **copies** of its source: the text up to its first tag, and this tag if it closes a
block. -/
def copies (c : Call) : Text :=
  match nextTag c.part.text with
  | none => c.part.text
  | some s => if s.tag.isClosing then s.upTo else s.before

/-- What a call puts in for its first tag. -/
def fills (c : Call) : Text :=
  match nextTag c.part.text with
  | none => []
  | some s => if s.tag.isClosing then [] else c.tagText s

/-- Whether a call copies a byte of a tag of its source. -/
def Copies (c : Call) (k : Token) : Prop :=
  c.part.offset < k.stop ∧ k.start < c.part.offset + c.copies.size

/-- Whether the section of a call cuts no tag of the source. -/
def CutsNoTag (c : Call) : Prop :=
  Uncut c.part.offset c.part.text 0 c.template.source

section Copies

variable {partials : Registry} {c d : Call} {s : TagSplit} {k : Token}

theorem copies_of_nextTag_none (h : nextTag c.part.text = none) : c.copies = c.part.text := by
  rw [copies, h]

theorem copies_of_nextTag (h : nextTag c.part.text = some s) :
    c.copies = if s.tag.isClosing then s.upTo else s.before := by
  rw [copies, h]

theorem fills_of_nextTag_none (h : nextTag c.part.text = none) : c.fills = [] := by
  rw [fills, h]

theorem fills_of_nextTag (h : nextTag c.part.text = some s) :
    c.fills = if s.tag.isClosing then [] else c.tagText s := by
  rw [fills, h]

/-- **What a call writes** is what it copies, and what it puts in for a tag. -/
theorem writes_eq (c : Call) : c.writes = c.copies ++ c.fills := by
  cases hs : nextTag c.part.text with
  | none =>
    rw [writes_of_nextTag_none hs, copies_of_nextTag_none hs, fills_of_nextTag_none hs,
      List.append_nil]
  | some s =>
    rw [writes_of_nextTag hs, copies_of_nextTag hs, fills_of_nextTag hs]
    by_cases hclosing : s.tag.isClosing
    · -- a closing tag stands for its own text
      obtain ⟨kind, htag⟩ := Tag.isClosing_iff.1 hclosing
      rw [if_pos hclosing, if_pos hclosing, List.append_nil, tagText, htag]
      rfl
    · rw [if_neg hclosing, if_neg hclosing]

theorem cutsNoTag_whole (depth : Nat) (t : Template) (scope : Scope) :
    (whole depth t scope).CutsNoTag :=
  Uncut.refl 0 t.source

/-- A call on a section that cuts no tag goes on to such calls. -/
theorem cutsNoTag_next (hc : c.CutsNoTag) (h : d ∈ c.next partials) : d.CutsNoTag := by
  obtain ⟨s, hs, h⟩ := mem_next h
  rcases h with ⟨-, rfl⟩ | ⟨name, -, h⟩ | ⟨kind, path, -, ⟨x, hx, rfl⟩ | rfl⟩
  · exact (Uncut.behind hs c.part.offset).trans hc
  · obtain ⟨depth, u, -, -, rfl⟩ := exists_of_onPartial? h
    exact cutsNoTag_whole depth u c.part.scope
  · exact ((Uncut.of_mem_sections hx).trans (Uncut.body hs c.part.offset kind)).trans hc
  · exact (Uncut.behindBlock hs c.part.offset kind).trans hc

/-- So no call of a render cuts a tag. -/
theorem cutsNoTag_of_reaches (hc : c.CutsNoTag) (h : c.Reaches partials d) : d.CutsNoTag := by
  induction h with
  | refl => exact hc
  | tail _ hnext ih => exact cutsNoTag_next ih hnext

/-- Nothing behind the first tag is copied. -/
theorem copies_le_stop (hs : nextTag c.part.text = some s) :
    c.part.offset + c.copies.size ≤ (s.token c.part.offset).stop := by
  rw [stop_token, copies_of_nextTag hs]
  split
  · exact Nat.le_refl _
  · have hupTo : s.upTo.size = s.before.size + s.lexeme.size := Text.size_append ..
    omega

/-- **A tag of which a byte is copied** is the first one of the call, and a closing tag. -/
theorem exists_nextTag_of_copies (hc : c.CutsNoTag) (hk : k ∈ tokens 0 c.template.source)
    (h : c.Copies k) :
    ∃ s, nextTag c.part.text = some s ∧ s.token c.part.offset = k ∧ s.tag.isClosing := by
  obtain ⟨hstop, hstart⟩ := h
  cases hs : nextTag c.part.text with
  | none =>
    have houtside := hc.outside_of_nextTag_none hs hk
    rw [copies_of_nextTag_none hs] at hstart
    omega
  | some s =>
    have hle := copies_le_stop hs
    obtain rfl := hc.eq_token_of_start_lt hs hk hstop (hstart.trans_le hle)
    refine ⟨s, rfl, rfl, ?_⟩
    -- of a tag that closes no block, only the text before it is copied
    by_contra hclosing
    rw [copies_of_nextTag hs, if_neg hclosing] at hstart
    exact Nat.lt_irrefl _ hstart

/-- And each closing tag outside of all blocks of a source is copied, in the loop on that source. -/
theorem exists_copies_of_mem_outermost {t : Template} (hk : k ∈ t.outermost.map Prod.fst)
    (hclosing : k.tag.isClosing) (partials : Registry) (depth : Nat) (scope : Scope) :
    ∃ d, (whole depth t scope).Reaches partials d ∧ (whole depth t scope).GoesOnTo d ∧
      d.Copies k := by
  have hout : k ∈ (whole depth t scope).outermost := hk
  obtain ⟨d, s, hloop, hs, rfl⟩ := exists_goesOnTo_iff.2 hout
  refine ⟨d, reaches_of_goesOnTo hloop, hloop, ?_⟩
  have hmem : s.token d.part.offset ∈ tokens d.part.offset d.part.text := by
    rw [tokens_of_nextTag hs]
    exact List.mem_cons_self
  have hlt := start_lt_stop_of_mem_tokens hmem
  have hstart : (s.token d.part.offset).start = d.part.offset + s.before.size := rfl
  -- a closing tag is copied with the text in front of it
  rw [tag_token] at hclosing
  rw [Copies, copies_of_nextTag hs, if_pos hclosing, ← stop_token]
  omega

end Copies

/-- **A closing tag is text only outside of all blocks.** Whatever a render copies of a source, it
copies no byte of a tag, except of closing tags that stand outside of all blocks of the whole source
of a template or of a partial, and those it copies in the loop on this source. In the body of a
block, or in a branch of it, the loop meets no closing tag. Where a body is split into branches, the
depth that is counted is never taken below zero; and the first branch, if there is another one, is
balanced, has no separating tag outside of its blocks, and makes up the body with the separating tag
and the other branch. -/
theorem isClosing_of_copies {partials : Registry} {t : Template} {depth : Nat} {scope : Scope}
    {c : Call} (h : (whole depth t scope).Reaches partials c) :
    (∀ k ∈ tokens 0 c.template.source, c.Copies k →
        k.tag.isClosing ∧ k ∈ c.template.outermost.map Prod.fst ∧
          ∃ depth' scope',
            (whole depth t scope).Reaches partials (whole depth' c.template scope') ∧
              (whole depth' c.template scope').GoesOnTo c) ∧
      ∀ s kind path, nextTag c.part.text = some s → s.tag = .opening kind path →
        (∀ d ∈ c.begins partials, d.MeetsNoClosing) ∧
          (kind = .cond → SplitsStrictly (Block.scan kind s.rest).body) := by
  refine ⟨?_, ?_⟩
  · intro k hk hcopies
    -- no call cuts a tag in two, so what it copies is one of its own
    have hcuts := cutsNoTag_of_reaches (cutsNoTag_whole depth t scope) h
    obtain ⟨s, hs, rfl, hclosing⟩ := exists_nextTag_of_copies hcuts hk hcopies
    exact ⟨hclosing, mem_outermost_of_isClosing h hs hclosing⟩
  · intro s kind path hs htag
    refine ⟨?_, fun _ => Block.splitsStrictly_body kind s.rest⟩
    intro d hd
    rw [begins, hs] at hd
    simp only [htag] at hd
    obtain ⟨x, hx, rfl⟩ := List.mem_map.1 hd
    exact meetsNoClosing_on hx

/-! ### Strays around a block -/

/-- A stray tag, with which a source begins. -/
def strayEach : Token :=
  ⟨[], .closing .each, "\x7b\x7b/each\x7d\x7d".toList, 0⟩

/-- The opening tag of a block, and the text behind it. The block holds another one in its first
branch, a tag of another kind closes it, and a stray tag follows it. -/
def splitOfChoice : TagSplit :=
  ⟨[], .opening .cond "x".toList, "\x7b\x7b#if x\x7d\x7d".toList,
    "\x7b\x7b#if y\x7d\x7d1\x7b\x7belse\x7d\x7d2\x7b\x7b/if\x7d\x7d".toList
      ++ "\x7b\x7belse\x7d\x7db\x7b\x7b/unless\x7d\x7d\x7b\x7b/if\x7d\x7d".toList⟩

/-- The page of that stray tag and of that block. -/
def strayPage : Template :=
  .ofSource "strays".toList (strayEach.lexeme ++ splitOfChoice.lexeme ++ splitOfChoice.rest)

/-- The call on the page, with no data. -/
def callOnStrays : Call :=
  whole 0 strayPage (.root ∅ ∅)

/-- The call of the round that meets the block. -/
def callOnChoice : Call :=
  callOnStrays.on ⟨splitOfChoice.lexeme ++ splitOfChoice.rest, 9, .root ∅ ∅⟩

/-- The stray tag is copied, outside of all blocks. The block holds another tag that closes a block,
and another one that separates branches; still no loop on a section of it meets a closing tag, and
it is split at the tag that separates its own branches. -/
theorem isClosing_of_copies_strayPage :
    callOnStrays.Reaches ∅ callOnStrays ∧ strayEach ∈ tokens 0 strayPage.source ∧
      callOnStrays.Copies strayEach ∧
      strayEach.tag.isClosing ∧ strayEach ∈ strayPage.outermost.map Prod.fst ∧
      callOnStrays.Reaches ∅ callOnChoice ∧ nextTag callOnChoice.part.text = some splitOfChoice ∧
      splitOfChoice.tag = .opening .cond "x".toList ∧
      (splitElse (Block.scan .cond splitOfChoice.rest).body).2 = some ['b'] ∧
      (∀ d ∈ callOnChoice.begins ∅, d.MeetsNoClosing) ∧
      SplitsStrictly (Block.scan .cond splitOfChoice.rest).body := by
  -- the stray tag is copied in the first round, and the block is opened in the second one
  have hstrays : callOnStrays.Reaches ∅ callOnStrays := .refl
  have hround : callOnStrays.nextRound? = some callOnChoice := by with_unfolding_all rfl
  have hchoice : callOnStrays.Reaches ∅ callOnChoice := .single (mem_next_iff.2 (.inr hround))
  have htokens : tokens 0 strayPage.source = strayEach :: tokens 9 callOnChoice.part.text := by
    decide +kernel
  have hmem : strayEach ∈ tokens 0 strayPage.source := htokens ▸ List.mem_cons_self
  have hcopied : callOnStrays.copies = strayEach.lexeme := by decide +kernel
  have hcopies : callOnStrays.Copies strayEach := by
    rw [Copies, hcopied]
    decide
  have hsplit : (splitElse (Block.scan .cond splitOfChoice.rest).body).2 = some ['b'] := by
    decide +kernel
  obtain ⟨hclosing, hout, -⟩ := (isClosing_of_copies hstrays).1 strayEach hmem hcopies
  obtain ⟨hmeets, hsplits⟩ := (isClosing_of_copies hchoice).2 splitOfChoice _ _ rfl rfl
  exact ⟨hstrays, hmem, hcopies, hclosing, hout, hchoice, rfl, rfl, hsplit, hmeets, hsplits rfl⟩

end Call

end Stencil
