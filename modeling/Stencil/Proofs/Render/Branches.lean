import Stencil.Proofs.Render.Inlining
import Stencil.Proofs.Tag.Balance
import Stencil.Proofs.Tag.Grammar

/-!
# Branches

An `if` block with two branches does what two blocks do one after the other, an `if` block with the
first branch and an `unless` block with the second one (`renderTemplate_branches`).

The branches can be any texts that keep to themselves. Such a text is balanced
(`SelfContained.balanced`), so the scan finds the end of the block right behind it; and no tag of it
separates branches, so the search for the separating tag finds the one that is written behind it
(`splitElse_append_alternative`). This says what sections of a block there are, and where a section
stands makes no difference to what it shows. So each kind of block has a law about what is shown of
it (`shown_branches`, `shown_cond`, `shown_notCond`), from which the theorem is put together.
-/

namespace Stencil

/-! ### Tags of blocks, written out -/

/-- The tag that opens a block on the value at a path. -/
def BlockKind.openingTag (kind : BlockKind) (path : Text) : Text :=
  ['\x7b', '\x7b', '#'] ++ kind.keyword ++ [' '] ++ path ++ ['\x7d', '\x7d']

/-- The tag that separates branches. -/
def alternativeTag : Text :=
  ['\x7b', '\x7b'] ++ Tag.elseWord ++ ['\x7d', '\x7d']

/-- A tag opens a block if there is a path in it, and whitespace at most behind that. -/
theorem BlockKind.isSpelling_openingTag_append (kind : BlockKind) {path blanks : Text}
    (hpath : isPath path) (hblanks : blanks.IsBlanks) :
    (Tag.opening kind path).IsSpelling (kind.openingTag (path ++ blanks)) := by
  have hform : (Tag.opening kind path).Form ('#' :: (kind.keyword ++ [' '] ++ path)) :=
    .opening (Text.isBlanks_iff.2 (by simp [Text.isBlank])) (by simp) (isPath_iff.1 hpath)
  have hnil : Text.IsBlanks [] := Text.isBlanks_iff.2 (by simp)
  refine ⟨[], _, blanks, hnil, hform, hblanks, ?_⟩
  simp [openingTag]

theorem BlockKind.isSpelling_openingTag (kind : BlockKind) {path : Text} (h : isPath path) :
    (Tag.opening kind path).IsSpelling (kind.openingTag path) := by
  have hnil : Text.IsBlanks [] := Text.isBlanks_iff.2 (by simp)
  have hspelling := kind.isSpelling_openingTag_append h hnil
  rwa [List.append_nil] at hspelling

/-- What the lexer reads where a tag that opens a block is written, is that tag or none. -/
theorem BlockKind.isSpelling_of_lex?_openingTag {kind : BlockKind} {t rest : Text} {l : Lexed}
    (hbracket : '\x7d' ∉ t) (h : Tag.lex? (kind.openingTag t ++ rest) = some l) :
    l.tag.IsSpelling (kind.openingTag t) := by
  obtain ⟨inner, hcut, -, -, hlexeme⟩ := Tag.lex?_cons_cons h
  have hnot : '\x7d' ∉ '#' :: (kind.keyword ++ ' ' :: t) := by
    have hkeyword : '\x7d' ∉ kind.keyword := fun hmem => (not_mem_keyword hmem).2 rfl
    simpa [hkeyword] using hbracket
  have hbehind : (kind.openingTag t ++ rest).drop 2
      = '#' :: (kind.keyword ++ ' ' :: t) ++ '\x7d' :: '\x7d' :: rest := by
    simp [openingTag]
  -- the first closing brackets are those of the tag, so its spelling is all in front of the rest
  rw [hbehind, Tag.cutAtClose?_of_not_mem hnot] at hcut
  obtain ⟨rfl, -⟩ := Prod.mk.inj (Option.some.inj hcut)
  have hspelling := Tag.isSpelling_of_lex? h
  rw [hlexeme] at hspelling
  convert hspelling using 1
  simp [openingTag]

/-- **A tag that opens a block is written with a path**, and whitespace at most behind that. -/
theorem BlockKind.exists_of_isSpelling {kind : BlockKind} {tag : Tag} {c : Char} {t : Text}
    (hc : Text.isBlank c = false) (h : tag.IsSpelling (kind.openingTag (c :: t))) :
    ∃ path blanks : Text, c :: t = path ++ blanks ∧ isPath path ∧ blanks.IsBlanks := by
  obtain ⟨before, form, after, hbefore, hform, hafter, hlexeme⟩ := h
  have hinner : '#' :: (kind.keyword ++ ' ' :: c :: t) = before ++ form ++ after := by
    have hclosed : '#' :: (kind.keyword ++ ' ' :: c :: t) ++ ['\x7d', '\x7d']
        = before ++ form ++ after ++ ['\x7d', '\x7d'] := by
      simpa [openingTag] using hlexeme
    exact List.append_cancel_right hclosed
  -- the mark in front is no whitespace, so it begins the form
  obtain rfl : before = [] := by
    cases before with
    | nil => rfl
    | cons d before =>
      obtain ⟨rfl, -⟩ := List.cons.inj hinner
      exact absurd (Text.isBlank_iff.2 (hbefore '#' List.mem_cons_self)) (by decide)
  cases hform with
  | inclusion hblanks hname => cases hinner
  | closing hblanks => cases hinner
  | alternative => cases hinner
  | value hpath hne =>
    obtain ⟨d, rest, rfl⟩ := List.exists_cons_of_ne_nil hpath.1
    obtain ⟨rfl, -⟩ := List.cons.inj hinner
    have hmark := hpath.2 '#' List.mem_cons_self
    exact absurd hmark (by decide)
  | @opening kind' blanks path hblanks hne hpath =>
    refine ⟨path, after, ?_, isPath_iff.2 hpath, hafter⟩
    obtain ⟨d, blanks, rfl⟩ := List.exists_cons_of_ne_nil hne
    obtain ⟨hd, hblanks⟩ := List.forall_mem_cons.1 hblanks
    -- the keyword ends at the first blank in both
    have hfirst : Text.cutAt? Text.isBlank (kind.keyword ++ ' ' :: c :: t)
        = some (kind.keyword, c :: t) :=
      Text.cutAt?_append_cons _ (fun e he => (not_mem_keyword he).1) rfl
    have hsecond : Text.cutAt? Text.isBlank (kind'.keyword ++ d :: (blanks ++ path ++ after))
        = some (kind'.keyword, blanks ++ path ++ after) :=
      Text.cutAt?_append_cons _ (fun e he => (not_mem_keyword he).1) (Text.isBlank_iff.2 hd)
    have hsame : kind.keyword ++ ' ' :: c :: t
        = kind'.keyword ++ d :: (blanks ++ path ++ after) := by
      simpa using hinner
    rw [hsame, hsecond] at hfirst
    have hrest := (Prod.mk.inj (Option.some.inj hfirst)).2
    -- and there is no other blank before the path, because the text does not begin with one
    cases blanks with
    | nil => exact hrest.symm
    | cons e blanks =>
      obtain ⟨rfl, -⟩ := List.cons.inj hrest
      have hblank := Text.isBlank_iff.2 (hblanks e List.mem_cons_self)
      rw [hc] at hblank
      cases hblank

theorem lex?_alternativeTag_append (rest : Text) :
    Tag.lex? (alternativeTag ++ rest) = some ⟨.alternative, alternativeTag, rest⟩ := rfl

/-! ### Texts that keep to themselves -/

/-- Tags that keep to themselves keep the bound of the open blocks, and exhaust it. -/
theorem Tag.closesWithin_of_areOwn {depth : Nat} {l : List Tag} (h : areOwn depth l) :
    ClosesWithin depth l ∧ closings l = openings l + depth := by
  induction l generalizing depth with
  | nil =>
    have hdepth : depth = 0 := of_decide_eq_true h
    exact ⟨closesWithin_nil depth, by simp [hdepth]⟩
  | cons tag l ih =>
    rw [areOwn, Bool.and_eq_true] at h
    obtain ⟨hwithin, htotal⟩ := ih h.2
    -- a tag that closes more than is open is not one of its own
    have htag : ¬ (depth = 0 ∧ tag.isClosing) := by
      rintro ⟨rfl, hclosing⟩
      cases tag <;> simp_all [isOwn, isClosing]
    exact ⟨closesWithin_cons_iff.2 ⟨htag, hwithin⟩, (closings_cons_eq_iff htag l).2 htotal⟩

theorem SelfContained.balanced {t : Text} (h : SelfContained t) : Tag.Balanced (tagsIn t) := by
  obtain ⟨hwithin, htotal⟩ := Tag.closesWithin_of_areOwn h
  exact ⟨hwithin, htotal⟩

/-- A separating tag behind tags that keep to themselves is the first one. -/
theorem alternativeAt_append_cons {ks : List Token} {k : Token}
    (h : Tag.areOwn 0 (ks.map Token.tag)) (hk : k.tag = .alternative) (ls : List Token) :
    alternativeAt 0 (ks ++ k :: ls) = some ⟨ks, k, ls⟩ := by
  obtain ⟨hwithin, htotal⟩ := Tag.closesWithin_of_areOwn h
  have hcount := Tag.depthBehind_add_closings hwithin
  exact cutAt_append_cons (alternativeAt_of_areOwn h) (by omega) (by rw [hk]; rfl) ls

/-- A text that keeps to itself is one branch. -/
theorem splitElse_of_selfContained {t : Text} (h : SelfContained t) : splitElse t = (t, none) :=
  splitElse_of_alternativeAt_none (alternativeAt_of_areOwn (h.areOwn_tokens 0))

/-- **A separating tag behind a text** that keeps to itself separates it from what follows. -/
theorem splitElse_append_alternative {t : Text} (h : SelfContained t)
    (hend : Even (bracketsAtEnd t)) (rest : Text) :
    splitElse (t ++ (alternativeTag ++ rest)) = (t, some rest) := by
  have hu := lex?_alternativeTag_append rest
  let k := Lexed.tokenBehind ⟨.alternative, alternativeTag, rest⟩ t
  have hcut := alternativeAt_append_cons (h.areOwn_tokens 0) (show k.tag = .alternative from rfl)
    (tokens k.stop rest)
  rw [← tokens_append_of_lex? hend hu] at hcut
  obtain ⟨c, hsplit, hc⟩ := splitElse_of_alternativeAt hcut
  rw [hsplit, hc.eq_of_append hend hu]

/-- Two branches are balanced together. -/
theorem balanced_branches {a b : Text} (ha : SelfContained a) (hb : SelfContained b)
    (haend : Even (bracketsAtEnd a)) : Tag.Balanced (tagsIn (a ++ (alternativeTag ++ b))) := by
  rw [tagsIn_append haend (lex?_alternativeTag_append b)]
  exact ha.balanced.append (hb.balanced.cons (by simp [Tag.isOpening]) (by simp [Tag.isClosing]))

/-- Two branches end in the brackets in which the second one does. -/
theorem even_bracketsAtEnd_branches (a : Text) {b : Text} (hbend : Even (bracketsAtEnd b)) :
    Even (bracketsAtEnd (a ++ (alternativeTag ++ b))) := by
  rwa [bracketsAtEnd_append_of_lex? (lex?_alternativeTag_append b)]

/-! ### What is shown of a block -/

section Shown

variable {α : Type} (o : Observation α) (partials : Registry) (depth : Nat) (t : Template)

/-- What is shown of a text in a scope. -/
def Observation.shown (scope : Scope) (text : Text) : List α :=
  o.of (renderSection partials depth t ⟨text, 0, scope⟩)

theorem Observation.shown_nil (scope : Scope) : o.shown partials depth t scope [] = [] := by
  have hnone : nextTag (⟨[], 0, scope⟩ : Section).text = none := by rw [nextTag]
  rw [shown, renderSection_of_nextTag_none hnone]
  exact o.of_empty

variable {o} (ho : o.IsPlaceless)
include ho

/-- **What is shown of a block** that a tag of its kind closes is what is shown of its sections,
however the tag is written that opens it. -/
theorem Observation.shown_block (scope : Scope) {kind : BlockKind} {path lexeme body : Text}
    (hopen : (Tag.opening kind path).IsSpelling lexeme) (hbody : Tag.Balanced (tagsIn body))
    (hend : Even (bracketsAtEnd body)) (rest : Text) :
    let b : Block := ⟨kind, body, rest, some kind⟩
    let parts := b.sections lexeme.size (scope.lookup path) scope
    o.shown partials depth t scope (lexeme ++ (body ++ (kind.closingTag ++ rest)))
      = (parts.map fun x => o.shown partials depth t x.scope x.text).flatten ++
        o.shown partials depth t scope rest := by
  intro b parts
  let content := body ++ (kind.closingTag ++ rest)
  let s : TagSplit := ⟨[], .opening kind path, lexeme, content⟩
  let part : Section := ⟨lexeme ++ content, 0, scope⟩
  have hnext : nextTag part.text = some s := nextTag_of_lex? (Tag.lex?_of_isSpelling hopen content)
  have hscan : Block.scan kind s.rest = b :=
    Block.scan_append_closing hbody hend (kind.lex?_closingTag_append rest) rfl kind
  have hfault : b.fault? = none := if_pos rfl
  have hstop : (s.token part.offset).stop = lexeme.size := by
    rw [stop_token, Nat.zero_add]
    rfl
  -- wherever the sections and what is left behind the block stand, they show the same
  have hparts : parts.map (fun x => o.of (renderSection partials depth t x))
      = parts.map fun x => o.shown partials depth t x.scope x.text := by
    refine List.map_congr_left ?_
    intro x _
    exact of_renderSection_eq ho partials depth t t x.text x.offset 0 x.scope
  have hbehind : o.of (renderSection partials depth t (part.behindBlock s b))
      = o.shown partials depth t scope rest :=
    of_renderSection_eq ho partials depth t t rest _ 0 scope
  have hbefore : o.of (.ofText s.before) = [] := o.of_empty
  change o.of (renderSection partials depth t part) = _
  rw [renderSection_opening hnext rfl, hscan, hfault, hstop, o.of_append, o.of_append, o.of_append,
    o.of_join, o.of_join, List.map_map, List.map_map, hbehind, hbefore, ← hparts]
  rfl

section Laws

variable (scope : Scope) {path lexeme : Text}

/-- An `if` block with two branches shows what the one of them shows that its value chooses. -/
theorem Observation.shown_branches (hopen : (Tag.opening .cond path).IsSpelling lexeme)
    {a b : Text} (ha : SelfContained a) (hb : SelfContained b)
    (haend : Even (bracketsAtEnd a)) (hbend : Even (bracketsAtEnd b)) (rest : Text) :
    o.shown partials depth t scope (lexeme ++
        (a ++ alternativeTag ++ b ++ (BlockKind.cond.closingTag ++ rest)))
      = o.shown partials depth t scope (if (scope.lookup path).isTruthy then a else b) ++
        o.shown partials depth t scope rest := by
  have hbody := balanced_branches ha hb haend
  have hend := even_bracketsAtEnd_branches a hbend
  rw [List.append_assoc a, shown_block partials depth t ho scope hopen hbody hend]
  congr 1
  -- the block leads to one section, which is the one branch or the other
  simp only [Block.sections, splitElse_append_alternative ha haend b]
  split
  · exact List.append_nil _
  · exact List.append_nil _

/-- An `if` block with one branch shows what that shows, or nothing. -/
theorem Observation.shown_cond (hopen : (Tag.opening .cond path).IsSpelling lexeme) {a : Text}
    (ha : SelfContained a) (haend : Even (bracketsAtEnd a)) (rest : Text) :
    o.shown partials depth t scope (lexeme ++ (a ++ (BlockKind.cond.closingTag ++ rest)))
      = (if (scope.lookup path).isTruthy then o.shown partials depth t scope a else []) ++
        o.shown partials depth t scope rest := by
  rw [shown_block partials depth t ho scope hopen ha.balanced haend]
  congr 1
  simp only [Block.sections, splitElse_of_selfContained ha]
  split
  · exact List.append_nil _
  · rfl

/-- An `unless` block shows nothing, or what its body shows. -/
theorem Observation.shown_notCond (hopen : (Tag.opening .notCond path).IsSpelling lexeme) {b : Text}
    (hb : SelfContained b) (hbend : Even (bracketsAtEnd b)) (rest : Text) :
    o.shown partials depth t scope (lexeme ++ (b ++ (BlockKind.notCond.closingTag ++ rest)))
      = (if (scope.lookup path).isTruthy then [] else o.shown partials depth t scope b) ++
        o.shown partials depth t scope rest := by
  rw [shown_block partials depth t ho scope hopen hb.balanced hbend]
  congr 1
  simp only [Block.sections]
  split
  · rfl
  · exact List.append_nil _

end Laws

end Shown

/-! ### Two branches, or two blocks -/

/-- An `if` block with two branches. -/
def branchesOn (path a b : Text) : Text :=
  BlockKind.cond.openingTag path ++ a ++ alternativeTag ++ b ++ BlockKind.cond.closingTag

/-- An `if` block with the one branch, and an `unless` block with the other behind it. -/
def blocksOn (path a b : Text) : Text :=
  BlockKind.cond.openingTag path ++ a ++ BlockKind.cond.closingTag ++
    BlockKind.notCond.openingTag path ++ b ++ BlockKind.notCond.closingTag

/-- A template that is an `if` block shows what the branch shows that the value chooses. -/
theorem Observation.of_renderTemplate_spelled {α : Type} {o : Observation α} (ho : o.IsPlaceless)
    {path lexeme a b : Text} (hopen : (Tag.opening .cond path).IsSpelling lexeme)
    (ha : SelfContained a) (hb : SelfContained b) (haend : Even (bracketsAtEnd a))
    (hbend : Even (bracketsAtEnd b)) (partials : Registry) (t : Template) (scope : Scope) :
    let render (source : Text) := renderTemplate partials { t with source } scope
    o.of (render (lexeme ++ (a ++ alternativeTag ++ b ++ BlockKind.cond.closingTag)))
      = o.of (render (if (scope.lookup path).isTruthy then a else b)) := by
  intro render
  let depth := inclusionBound partials scope
  -- the sources are shown as if they stood in the same template
  have hshown (source : Text) : o.of (render source) = o.shown partials depth t scope source :=
    of_renderSection_eq ho partials depth { t with source } t source 0 0 scope
  have hbranches := shown_branches partials depth t ho scope hopen ha hb haend hbend []
  rw [o.shown_nil, List.append_nil, List.append_nil] at hbranches
  rw [hshown, hshown, hbranches]

section Templates

variable {path a b : Text} (hpath : isPath path) (ha : SelfContained a) (hb : SelfContained b)
  (haend : Even (bracketsAtEnd a)) (hbend : Even (bracketsAtEnd b))
include hpath ha hb haend hbend

/-- Both show what the branch shows that the value chooses. -/
theorem Observation.of_renderTemplate_branches {α : Type} {o : Observation α} (ho : o.IsPlaceless)
    (partials : Registry) (t : Template) (scope : Scope) :
    let render (source : Text) := renderTemplate partials { t with source } scope
    let alone := if (scope.lookup path).isTruthy then a else b
    o.of (render (branchesOn path a b)) = o.of (render alone) ∧
      o.of (render (blocksOn path a b)) = o.of (render alone) := by
  intro render alone
  let depth := inclusionBound partials scope
  -- the sources are shown as if they stood in the same template
  have hshown (source : Text) : o.of (render source) = o.shown partials depth t scope source :=
    of_renderSection_eq ho partials depth { t with source } t source 0 0 scope
  constructor
  · have htext : branchesOn path a b = BlockKind.cond.openingTag path ++
        (a ++ alternativeTag ++ b ++ BlockKind.cond.closingTag) := by
      simp [branchesOn]
    rw [htext]
    have hopen := BlockKind.isSpelling_openingTag .cond hpath
    exact of_renderTemplate_spelled ho hopen ha hb haend hbend
      partials t scope
  · have htext : blocksOn path a b = BlockKind.cond.openingTag path ++
        (a ++ (BlockKind.cond.closingTag ++ (BlockKind.notCond.openingTag path ++
          (b ++ (BlockKind.notCond.closingTag ++ []))))) := by
      simp [blocksOn]
    have hfirst := BlockKind.isSpelling_openingTag .cond hpath
    have hsecond := BlockKind.isSpelling_openingTag .notCond hpath
    rw [hshown, hshown, htext, shown_cond partials depth t ho scope hfirst ha haend,
      shown_notCond partials depth t ho scope hsecond hb hbend, o.shown_nil]
    -- of the two blocks, one shows its branch and the other one nothing
    by_cases htruthy : (scope.lookup path).isTruthy
    · simp [alone, htruthy]
    · simp [alone, htruthy]

/-- **Two branches are two blocks.** Whatever texts that keep to themselves the branches are, and
whatever is looked up, an `if` block with two branches writes what an `if` block with the first and
an `unless` block with the second one write, and finds the same faults in the same order: those of
the first branch alone if the value is true, and those of the second alone if it is false. -/
theorem renderTemplate_branches (partials : Registry) (t : Template) (scope : Scope) :
    let render (source : Text) := renderTemplate partials { t with source } scope
    let faults (r : Rendered) := r.diagnostics.map Diagnostic.fault
    let alone := if (scope.lookup path).isTruthy then a else b
    (render (branchesOn path a b)).output = (render (blocksOn path a b)).output ∧
      faults (render (branchesOn path a b)) = faults (render (blocksOn path a b)) ∧
      (render (branchesOn path a b)).output = (render alone).output ∧
      faults (render (branchesOn path a b)) = faults (render alone) := by
  intro render faults alone
  obtain ⟨houtput, houtput'⟩ := Observation.of_renderTemplate_branches hpath ha hb haend hbend
    Observation.isPlaceless_output partials t scope
  obtain ⟨hfaults, hfaults'⟩ := Observation.of_renderTemplate_branches hpath ha hb haend hbend
    Observation.isPlaceless_faults partials t scope
  exact ⟨houtput.trans houtput'.symm, hfaults.trans hfaults'.symm, houtput, hfaults⟩

end Templates

/-! ### Branches with blocks in them -/

/-- A branch with a block in it that has branches itself, and that a tag of another kind closes. -/
def nestedBranch : Text :=
  "<\x7b\x7b#if x\x7d\x7d1\x7b\x7belse\x7d\x7d2\x7b\x7b/each\x7d\x7d>".toList

/-- A branch that includes a partial, and that ends in two brackets. -/
def openBranch : Text :=
  "\x7b\x7b> nav\x7d\x7d\x7b\x7b#each rows\x7d\x7d.\x7b\x7b/each\x7d\x7d \x7b\x7b".toList

theorem selfContained_nestedBranch : SelfContained nestedBranch := by
  unfold SelfContained
  decide +kernel

theorem selfContained_openBranch : SelfContained openBranch := by
  unfold SelfContained
  decide +kernel

/-- Where the value is missing, both write the second branch, and find its partial missing. -/
theorem renderTemplate_branches_nested :
    let path := "user.name".toList
    let render (source : Text) := renderTemplate ∅ (.ofSource "page".toList source) (.root ∅ ∅)
    let faults (r : Rendered) := r.diagnostics.map Diagnostic.fault
    isPath path ∧ SelfContained nestedBranch ∧ SelfContained openBranch ∧
      Even (bracketsAtEnd nestedBranch) ∧ Even (bracketsAtEnd openBranch) ∧
      (render (branchesOn path nestedBranch openBranch)).output
        = (render (blocksOn path nestedBranch openBranch)).output ∧
      faults (render (branchesOn path nestedBranch openBranch))
        = faults (render (blocksOn path nestedBranch openBranch)) ∧
      (render (branchesOn path nestedBranch openBranch)).output = (render openBranch).output ∧
      faults (render (branchesOn path nestedBranch openBranch)) = faults (render openBranch) :=
  have hpath : isPath "user.name".toList := by decide
  have hfirst : Even (bracketsAtEnd nestedBranch) := by decide
  have hsecond : Even (bracketsAtEnd openBranch) := by decide
  ⟨hpath, selfContained_nestedBranch, selfContained_openBranch, hfirst, hsecond,
    renderTemplate_branches hpath selfContained_nestedBranch selfContained_openBranch hfirst hsecond
      ∅ (.ofSource "page".toList []) (.root ∅ ∅)⟩

end Stencil
