import Stencil.Proofs.Tag.Nesting

/-!
# Well-nested tags

The scan for the end of a block counts tags and does not look at their kinds. This module compares
it with the syntax that one expects blocks to have, in which a block is an opening tag, a
well-nested inside and a closing tag of the same kind (`WellNested`):

* `wellNested_iff` — block tags are well nested just if every closing tag has the kind of the block
  that counting finds it to close, and counting leaves no block open.

Counting is told here by the kinds of the blocks that are open (`Tag.kindsAfter`), which is what an
induction on the tags can carry along; on the side of the syntax the same is said by what is to
follow for these blocks to be closed (`ClosesWell`).
-/

namespace Stencil

/-- Whether block tags are **well nested**: each block ends with a tag of its kind. -/
inductive WellNested : List Tag → Prop
  | nil : WellNested []
  | block {kind : BlockKind} {path : Text} {inside behind : List Tag} (hinside : WellNested inside)
      (hbehind : WellNested behind) :
      WellNested (.opening kind path :: inside ++ .closing kind :: behind)

namespace Tag

/-- Whether a tag opens or closes a block. -/
def isBlockTag : Tag → Bool
  | .opening .. => true
  | .closing _ => true
  | _ => false

/-- Whether a tag, if it closes a block, has the kind of the innermost one that is open. -/
def closesInnermost (kinds : List BlockKind) : Tag → Bool
  | .closing kind => kinds.head? = some kind
  | _ => true

/-- Whether each closing tag has the kind of the block that counting finds it to close, when blocks
of some kinds are open, and none is left open. -/
def areMatched : List BlockKind → List Tag → Bool
  | kinds, [] => kinds.isEmpty
  | kinds, tag :: rest => tag.closesInnermost kinds && areMatched (tag.kindsAfter kinds) rest

/-- Tags that are no block tags do not count. -/
theorem areMatched_filter (kinds : List BlockKind) (l : List Tag) :
    areMatched kinds (l.filter isBlockTag) = areMatched kinds l := by
  induction l generalizing kinds with
  | nil => rfl
  | cons tag l ih =>
    cases htag : tag.isBlockTag with
    | true => rw [List.filter_cons_of_pos htag, areMatched, areMatched, ih]
    | false =>
      -- any other tag closes nothing, and opens nothing
      have hother : tag.closesInnermost kinds = true ∧ tag.kindsAfter kinds = kinds := by
        cases tag with
        | opening kind path => cases htag
        | closing kind => cases htag
        | _ => exact ⟨rfl, rfl⟩
      rw [List.filter_cons_of_neg (by simp [htag]), ih, areMatched, hother.1, hother.2,
        Bool.true_and]

end Tag

/-- Well-nested tags leave the open blocks as they are. -/
theorem WellNested.areMatched_append {l : List Tag} (h : WellNested l) (kinds : List BlockKind)
    (rest : List Tag) : Tag.areMatched kinds (l ++ rest) = Tag.areMatched kinds rest := by
  induction h generalizing kinds rest with
  | nil => rfl
  | @block kind path inside behind _ _ ihinside ihbehind =>
    calc Tag.areMatched kinds (.opening kind path :: inside ++ .closing kind :: behind ++ rest)
        = Tag.areMatched (kind :: kinds) (inside ++ (.closing kind :: (behind ++ rest))) := by
          rw [List.append_assoc]; rfl
      _ = Tag.areMatched (kind :: kinds) (.closing kind :: (behind ++ rest)) := ihinside ..
      _ = Tag.areMatched kinds (behind ++ rest) := by
          simp [Tag.areMatched, Tag.closesInnermost, Tag.kindsAfter]
      _ = Tag.areMatched kinds rest := ihbehind ..

/-- Whether tags **close well** the blocks of some kinds, the innermost one first: what stands
before each closing tag, and behind the last one, is well nested. -/
def ClosesWell : List BlockKind → List Tag → Prop
  | [], l => WellNested l
  | kind :: kinds, l => ∃ inside behind, l = inside ++ .closing kind :: behind ∧
      WellNested inside ∧ ClosesWell kinds behind

/-- A block in front stands inside of the innermost open one. -/
theorem ClosesWell.block {kinds : List BlockKind} {kind : BlockKind} {inside behind : List Tag}
    (h : ClosesWell kinds behind) (hinside : WellNested inside) (path : Text) :
    ClosesWell kinds (.opening kind path :: inside ++ .closing kind :: behind) := by
  cases kinds with
  | nil => exact WellNested.block hinside h
  | cons outer kinds =>
    obtain ⟨inside', behind', rfl, hinside', hbehind'⟩ := h
    exact ⟨.opening kind path :: inside ++ .closing kind :: inside', behind',
      by simp only [List.cons_append, List.append_assoc], WellNested.block hinside hinside',
      hbehind'⟩

/-- Tags that counting matches close well what is open. -/
theorem closesWell_of_areMatched {kinds : List BlockKind} {l : List Tag}
    (hl : ∀ tag ∈ l, tag.isBlockTag) (h : Tag.areMatched kinds l) : ClosesWell kinds l := by
  induction l generalizing kinds with
  | nil =>
    obtain rfl := List.isEmpty_iff.1 h
    exact .nil
  | cons tag l ih =>
    rw [Tag.areMatched, Bool.and_eq_true] at h
    have hrest := ih (fun t ht => hl t (List.mem_cons_of_mem _ ht)) h.2
    cases tag with
    | opening kind path =>
      -- what closes the block is found first, and the blocks around it further on
      obtain ⟨inside, behind, rfl, hinside, hbehind⟩ := hrest
      exact hbehind.block hinside path
    | closing kind =>
      cases kinds with
      | nil => simp [Tag.closesInnermost] at h
      | cons outer kinds =>
        obtain rfl : outer = kind := by simpa [Tag.closesInnermost] using h.1
        exact ⟨[], l, rfl, .nil, hrest⟩
    | _ => exact absurd (hl _ List.mem_cons_self) (by simp [Tag.isBlockTag])

/-- **Counting agrees with the syntax.** The block tags among some tags are well nested just if each
closing tag has the kind of the block that counting finds it to close, and no block is left open. -/
theorem wellNested_iff {l : List Tag} :
    WellNested (l.filter Tag.isBlockTag) ↔ Tag.areMatched [] l := by
  rw [← Tag.areMatched_filter]
  constructor
  · intro h
    have := h.areMatched_append [] []
    rw [List.append_nil] at this
    rw [this]
    rfl
  · intro h
    exact closesWell_of_areMatched (fun tag htag => (List.mem_filter.1 htag).2) h

end Stencil
