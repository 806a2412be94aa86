import Stencil.Proofs.Render.Inclusion
import Stencil.Proofs.Render.Places
import Stencil.Proofs.Render.Seam

/-!
# Inlining partials

A tag that includes a partial can be replaced by the source of the partial, at whatever depth of
blocks the tag stands (`output_inlined`). Two things can go wrong with that, and both are asked for
not to happen: the source may have block tags or a `{{else}}` that would have to do with blocks
around it (`SelfContained`), and tags may be formed or lost where it meets the text around it
(`Seamless`).

The proof reads both templates side by side. Up to the tag they are the same. Then one reads the
tag, and the other the tags of the partial; but a self-contained text only adds its own tree where
it is read, under whatever blocks are open (`Parser.read_of_areOwn`), and this tree shows what the
tag does. Behind the tag both are the same again but for their places, which the output does not
tell.
-/

namespace Stencil

/-! ### Texts that keep to themselves -/

/-- Whether a tag has nothing to do with blocks further out, when `depth` blocks are open before it:
it neither closes one of those, nor separates its branches. -/
def Tag.isOwn (depth : Nat) : Tag → Bool
  | .closing _ => depth ≠ 0
  | .alternative => depth ≠ 0
  | _ => true

/-- Whether tags have nothing to do with blocks further out, when `depth` blocks are open before
them, and leave none of these open. -/
def Tag.areOwn : Nat → List Tag → Bool
  | depth, [] => depth = 0
  | depth, tag :: rest => tag.isOwn depth && areOwn (tag.depthAfter depth) rest

/-- Whether a text **keeps to itself**: its blocks are balanced, and no `{{else}}` stands outside of
them. -/
def SelfContained (t : Text) : Prop :=
  Tag.areOwn 0 ((tags t).map TagSplit.tag)

instance (t : Text) : Decidable (SelfContained t) :=
  inferInstanceAs (Decidable (_ = true))

theorem SelfContained.areOwn_tokens {t : Text} (h : SelfContained t) (offset : Nat) :
    Tag.areOwn 0 ((tokens offset t).map Token.tag) := by
  rw [map_tag_tokens]
  exact h

/-- Tags that keep to themselves do not separate branches. -/
theorem alternativeAt_of_areOwn {depth : Nat} {ks : List Token}
    (h : Tag.areOwn depth (ks.map Token.tag)) : alternativeAt depth ks = none := by
  induction ks generalizing depth with
  | nil => rfl
  | cons k ks ih =>
    rw [List.map_cons, Tag.areOwn, Bool.and_eq_true] at h
    rw [alternativeAt, cutAt, if_neg, ← alternativeAt, ih h.2]
    · rfl
    · rintro ⟨rfl, hhit⟩
      cases htag : k.tag <;> simp_all [Tag.isOwn, Tag.isAlternative]

/-! ### Reading under open blocks -/

namespace Parser

/-- What has been read, `xs` inside of the blocks `frames`, as it is with `base` around it: what
stands outside of all blocks then stands behind the fragments of `base`. -/
def plant (base : Parser) : List Fragment → List Frame → Parser
  | xs, [] => ⟨base.fragments ++ xs, base.frames⟩
  | xs, f :: outer =>
    let around := plant base f.before outer
    ⟨xs, { f with before := around.fragments } :: around.frames⟩

theorem push_plant (base : Parser) (xs : List Fragment) (frames : List Frame) (x : Fragment) :
    (plant base xs frames).push x = plant base (xs ++ [x]) frames := by
  cases frames with
  | nil => simp [plant, push]
  | cons f outer => rfl

/-- **A step** is the same whatever stands around, unless it has to do with that. -/
theorem step_plant (base : Parser) {xs : List Fragment} {frames : List Frame} {k : Token}
    (h : k.tag.isOwn frames.length) :
    (plant base xs frames).step k
      = plant base (step ⟨xs, frames⟩ k).fragments (step ⟨xs, frames⟩ k).frames := by
  cases htag : k.tag with
  | opening kind path =>
    rw [step_opening htag xs]
    simp only [step, htag, push_plant]
    rfl
  | closing kind =>
    cases frames with
    | nil => simp [htag, Tag.isOwn] at h
    | cons f outer =>
      rw [step_closing_cons htag xs]
      simp only [step, htag, push_plant]
      -- the block goes behind what stood before it, which is planted itself
      exact push_plant base f.before outer (f.block (some kind) (xs ++ [.text k.before]))
  | _ =>
    rw [step_plain (by rw [Token.plain?, htag]) ⟨xs, frames⟩]
    simp only [step, htag, push_plant, List.append_assoc]
    rfl

/-- How many blocks are open, from tag to tag. -/
theorem length_frames_step (p : Parser) (k : Token) :
    (p.step k).frames.length = k.tag.depthAfter p.frames.length := by
  rw [← List.length_map Frame.kind, map_kind_step, Tag.length_kindsAfter, List.length_map]

/-- **Tags that keep to themselves** are read in the same way whatever stands around, and leave no
block open. -/
theorem foldl_step_plant (base : Parser) {ks : List Token} {xs : List Fragment}
    {frames : List Frame} (h : Tag.areOwn frames.length (ks.map Token.tag)) :
    (ks.foldl step ⟨xs, frames⟩).frames = [] ∧
      ks.foldl step (plant base xs frames)
        = plant base (ks.foldl step ⟨xs, frames⟩).fragments [] := by
  induction ks generalizing xs frames with
  | nil =>
    obtain rfl : frames = [] := List.length_eq_zero_iff.1 (of_decide_eq_true h)
    exact ⟨rfl, rfl⟩
  | cons k ks ih =>
    rw [List.map_cons, Tag.areOwn, Bool.and_eq_true] at h
    -- as many frames are open as blocks, so no tag reaches below the planted ones
    have hlength := length_frames_step ⟨xs, frames⟩ k
    rw [← show _ = k.tag.depthAfter frames.length from hlength] at h
    rw [List.foldl_cons, List.foldl_cons, step_plant base h.1]
    exact ih h.2

/-- So such tags add their own tree where they are read. -/
theorem read_of_areOwn (p : Parser) {ks : List Token} (h : Tag.areOwn 0 (ks.map Token.tag))
    (last : Text) : p.read ks last = ⟨p.fragments ++ treeOf ks last, p.frames⟩ := by
  have hp : plant p [] [] = p := by rw [plant, List.append_nil]
  -- the tokens are read on an empty parser, and what comes of it is planted
  obtain ⟨hframes, hplant⟩ : (ks.foldl step .start).frames = [] ∧ ks.foldl step (plant p [] [])
      = plant p (ks.foldl step .start).fragments [] := foldl_step_plant p h
  rw [hp] at hplant
  have htree : treeOf ks last = (ks.foldl step .start).fragments ++ [.text last] := by
    rw [treeOf, ← start, ← List.append_nil ks, parse_append, List.append_nil]
    generalize ks.foldl step .start = q at hframes
    obtain ⟨xs, frames⟩ := q
    obtain rfl : frames = [] := hframes
    rw [parse_nil, finish]
  rw [read, hplant, push_plant, plant, htree]

end Parser

/-! ### Reading texts that are put together -/

section Join

variable {α : Type} (v : View α)

/-- Text is read alike in one piece and in two. -/
theorem Parser.Alike.push_text_append (p : Parser) (s t : Text) :
    Alike v v (p.push (.text (s ++ t))) ((p.push (.text s)).push (.text t)) := by
  refine ⟨?_, (refl v p).frames⟩
  simp only [Parser.push]
  rw [v.sense_append, v.sense_append, v.sense_append, v.sense_text_append, Sense.append_assoc]

/-- **Tokens that are joined** are read like the ones and then the others: the text where they meet
shows the same in one piece and in two. -/
theorem Parser.Alike.read_join (p : Parser) (ks ls : List Token) (last last' : Text) :
    Alike v v (p.read (joinTokens ks last ls) (joinLast last ls last'))
      ((p.read ks last).read ls last') := by
  have hself : v.Alike v := ⟨fun _ => rfl⟩
  have hpieces (t : Text) : Alike v v ((ks.foldl Parser.step p).push (.text (last ++ t)))
      ((p.read ks last).push (.text t)) := push_text_append v _ last t
  cases ls with
  | nil => exact hpieces last'
  | cons l ls =>
    have hjoin : p.read (joinTokens ks last (l :: ls)) (joinLast last (l :: ls) last')
        = ((ks.foldl Parser.step p).step { l with before := last ++ l.before }).read ls last' := by
      rw [Parser.read, joinTokens, List.foldl_append, List.foldl_cons]
      rfl
    rw [hjoin]
    -- the text in front of the first tag is read in two pieces, or in one
    have hl : Token.Alike v v { l with before := last ++ l.before } l :=
      ⟨rfl, rfl, fun _ _ => rfl, fun _ _ _ _ => rfl⟩
    exact (step hself hl (hpieces l.before)).read hself
      (List.forall₂_same.2 fun k _ => ⟨.refl v k, rfl⟩) last'

end Join

/-! ### Inlining -/

section Inlining

variable {partials : Registry} {included : Template → Scope → Rendered} {t u : Template}

/-- Looking at the output alone, places make no difference. -/
theorem Parser.Alike.read_ofOutput {p q : Parser}
    (h : Alike (.ofOutput partials included t) (.ofOutput partials included u) p q)
    (offset offset' : Nat) (text : Text) :
    Alike (.ofOutput partials included t) (.ofOutput partials included u)
      (p.read (tokens offset text) (lastText text))
      (q.read (tokens offset' text) (lastText text)) :=
  h.read_of_isPlaceless Observation.isPlaceless_output offset offset' text

theorem Parser.Alike.sense_finish_ofOutput {p q : Parser}
    (h : Alike (.ofOutput partials included t) (.ofOutput partials included u) p q) :
    (View.ofOutput partials included t).sense (finish p.fragments p.frames)
      = (View.ofOutput partials included u).sense (finish q.fragments q.frames) :=
  h.sense_finish_of_isPlaceless Observation.isPlaceless_output

/-- What texts write that are put together with no tag formed or lost. -/
theorem View.sense_ofOutput_of_seamless {x z y : Text} (hu : u.source = x ++ z ++ y)
    (h : Seamless x z y) :
    let p := ((Parser.start.read (tokens 0 x) (lastText x)).read (tokens x.size z)
      (lastText z)).read (tokens (x.size + z.size) y) (lastText y)
    (View.ofOutput partials included u).sense u.tree
      = (View.ofOutput partials included u).sense (Parser.finish p.fragments p.frames) := by
  obtain ⟨htokens, hlast⟩ := tokens_of_seamless h
  have hxz := Parser.Alike.read_join (.ofOutput partials included u) .start (tokens 0 x)
    (tokens x.size z) (lastText x) (lastText z)
  rw [Template.tree, hu, htokens, hlast]
  refine (Parser.Alike.read_join _ .start _ _ _ _).sense_finish_ofOutput.trans ?_
  exact (hxz.read_ofOutput _ _ y).sense_finish_ofOutput

/-- Tags that keep to themselves write the same in another template, wherever they stand, and in
every block. -/
theorem View.sense_ofOutput_of_selfContained (h : SelfContained t.source) (offset : Nat) :
    (View.ofOutput partials included u).sense (treeOf (tokens offset t.source) (lastText t.source))
      = .leaf ((View.ofOutput partials included t).shown t.tree) := by
  have hstart := Parser.Alike.start (.ofOutput partials included t) (.ofOutput partials included u)
  have hsame := (hstart.read_ofOutput 0 offset t.source).sense_finish_ofOutput
  have hbranches := (branching (tokens 0 t.source) (lastText t.source)).whole
    (alternativeAt_of_areOwn (h.areOwn_tokens 0))
  refine hsame.symm.trans ?_
  change (View.ofOutput partials included t).sense t.tree = _
  rw [View.sense, show splitAlternative t.tree = (t.tree, none) from hbranches]
  rfl

/-- Reading a text up to a tag that includes a partial, that tag, and what is behind it. -/
theorem treeOf_of_inclusion {source x y name : Text} {k : Token} (hk : k ∈ tokens 0 source)
    (htag : k.tag = .inclusion name) (hsource : source = x ++ k.lexeme ++ y)
    (hstart : k.start = x.size) :
    treeOf (tokens 0 source) (lastText source)
      = ((Parser.start.read (tokens 0 x) (lastText x)).push
          (.inclusion name k.start k.stop)).parse (tokens k.stop y) (lastText y) := by
  obtain ⟨hbefore, htokens, hlast⟩ := tokens_eq_of_mem hk hsource hstart
  have hstep : ((tokens 0 x).foldl Parser.step .start).step k
      = (Parser.start.read (tokens 0 x) (lastText x)).push
          (.inclusion name k.start k.stop) := by
    simp only [Parser.step, htag, hbefore]
    rfl
  rw [htokens, hlast, treeOf, Parser.parse_append, Parser.parse_cons]
  exact congrArg (fun q : Parser => q.parse (tokens k.stop y) (lastText y)) hstep

/-- A tag that includes a partial which keeps to itself writes what the tree of the partial does. -/
theorem View.sense_inclusion_ofOutput (hmeaning : IsMeaning partials included) {name : Text}
    {z : Template} (hz : partials.get? name = some z) (hself : SelfContained z.source)
    (start stop offset : Nat) :
    (View.ofOutput partials included t).sense [.inclusion name start stop]
      = (View.ofOutput partials included u).sense
          (treeOf (tokens offset z.source) (lastText z.source)) := by
  rw [View.sense_singleton _ (by simp), View.sense_ofOutput_of_selfContained hself]
  refine congrArg Sense.leaf (funext fun scope => ?_)
  rw [View.shown, View.shown, evalAll_singleton, Fragment.eval]
  simp only [View.ofOutput, hz]
  rw [hmeaning]

end Inlining

/-- **Including a partial is inlining it.** A template writes the same with the source of a partial
in place of a tag that includes it, if that source keeps to itself and no tag is formed or lost
where it meets the text around it. -/
theorem output_inlined {partials : Registry} (hacyclic : partials.Acyclic) {t z : Template}
    {x y name : Text} {k : Token} (hk : k ∈ tokens 0 t.source) (htag : k.tag = .inclusion name)
    (hsource : t.source = x ++ k.lexeme ++ y) (hstart : k.start = x.size)
    (hz : partials.get? name = some z) (hself : SelfContained z.source)
    (hseamless : Seamless x z.source y) (scope : Scope) :
    (renderTemplate partials t scope).output
      = (renderTemplate partials { t with source := x ++ z.source ++ y } scope).output := by
  let u : Template := { t with source := x ++ z.source ++ y }
  let v := View.ofOutput partials (renderTemplate partials) t
  let w := View.ofOutput partials (renderTemplate partials) u
  let p := Parser.start.read (tokens 0 x) (lastText x)
  have hmeaning := isMeaning_renderTemplate hacyclic
  -- the tag shows what the tree of the partial does, so after both the parsers are alike
  have hp : Parser.Alike v w p p := (Parser.Alike.start v w).read_ofOutput 0 0 x
  have hafter : Parser.Alike v w (p.push (.inclusion name k.start k.stop))
      (p.read (tokens x.size z.source) (lastText z.source)) := by
    rw [Parser.read_of_areOwn p (hself.areOwn_tokens x.size)]
    exact hp.append (View.sense_inclusion_ofOutput hmeaning hz hself ..)
  -- behind them the same tags follow, in other places
  have hend := (hafter.read_ofOutput k.stop (x.size + z.source.size) y).sense_finish_ofOutput
  have htree : v.sense t.tree = w.sense u.tree := by
    rw [Template.tree, treeOf_of_inclusion hk htag hsource hstart]
    exact hend.trans (View.sense_ofOutput_of_seamless rfl hseamless).symm
  calc (renderTemplate partials t scope).output
      = v.shown t.tree scope := by rw [hmeaning]; rfl
    _ = w.shown u.tree scope := congrFun (congrArg Sense.whole htree) scope
    _ = (renderTemplate partials u scope).output := by rw [hmeaning]; rfl

/-! ### Rows on a page -/

/-- A page that includes the partial for rows inside of a block. -/
def pageOfRows : Template :=
  .ofSource "page".toList
    "\x7b\x7b#each rows\x7d\x7d<\x7b\x7b> row\x7d\x7d>\x7b\x7b/each\x7d\x7d".toList

/-- The partial for rows, which includes the one for cells. -/
def rowOfCell : Template :=
  .ofSource "row".toList "[\x7b\x7b> cell\x7d\x7d]".toList

/-- The tag of the page that includes the partial. -/
def tagOfRow : Token :=
  ⟨"<".toList, .inclusion "row".toList, "\x7b\x7b> row\x7d\x7d".toList, 15⟩

/-- What stands before that tag. -/
def beforeRow : Text :=
  "\x7b\x7b#each rows\x7d\x7d<".toList

/-- What stands behind that tag. -/
def afterRow : Text :=
  ">\x7b\x7b/each\x7d\x7d".toList

theorem tagOfRow_mem : tagOfRow ∈ tokens 0 pageOfRows.source := by
  have htokens : tokens 0 pageOfRows.source
      = [⟨[], .opening .each "rows".toList, "\x7b\x7b#each rows\x7d\x7d".toList, 0⟩, tagOfRow,
        ⟨">".toList, .closing .each, "\x7b\x7b/each\x7d\x7d".toList, 25⟩] := by decide +kernel
  simp [htokens]

theorem selfContained_rowOfCell : SelfContained rowOfCell.source := by
  unfold SelfContained
  decide +kernel

theorem seamless_row : Seamless beforeRow rowOfCell.source afterRow := by
  unfold Seamless
  decide +kernel

/-- With two rows, the page writes the same as with the partial for rows written out in it. -/
theorem output_inlined_pageOfRows :
    let scope := .root (.ofFields [("rows".toList, .list [.bool true, .bool false])]) ∅
    let written : Template :=
      { pageOfRows with source := beforeRow ++ rowOfCell.source ++ afterRow }
    tagOfRow ∈ tokens 0 pageOfRows.source ∧ SelfContained rowOfCell.source ∧
      Seamless beforeRow rowOfCell.source afterRow ∧
      (renderTemplate rowsAndCells pageOfRows scope).output
        = (renderTemplate rowsAndCells written scope).output :=
  ⟨tagOfRow_mem, selfContained_rowOfCell, seamless_row, output_inlined acyclic_rowsAndCells
    tagOfRow_mem rfl rfl rfl rfl selfContained_rowOfCell seamless_row _⟩

end Stencil
