import Stencil.Tag.Lexer

/-!
# The tags of a text

All the tags of a text, in order, each as the split of what is left of the text behind the tag
before it. A walk over the tags of a text is then a recursion on this list.

* `tags_of_nextTag` — the list begins with the first tag and goes on behind it;
* `splitsOf_tags`, `tags_of_splitsOf` — it is the one list in which each split is that of what the
  split before it leaves.
-/

namespace Stencil

/-- The tags of a text, in order. -/
def tags (t : Text) : List TagSplit :=
  match _h : nextTag t with
  | none => []
  | some s => s :: tags s.rest
termination_by t.length
decreasing_by exact rest_lt_of_nextTag _h

theorem tags_of_nextTag {t : Text} {s : TagSplit} (h : nextTag t = some s) :
    tags t = s :: tags s.rest := by
  rw [tags]
  split
  · next hn => simp [hn] at h
  · next s' hs => rw [Option.some.inj (hs.symm.trans h)]

theorem tags_of_nextTag_none {t : Text} (h : nextTag t = none) : tags t = [] := by
  rw [tags]
  split
  · rfl
  · next s hs => simp [hs] at h

/-- Whether `stream` is the tags of `t`, split after split. -/
def SplitsOf : Text → List TagSplit → Prop
  | t, [] => nextTag t = none
  | t, s :: stream => nextTag t = some s ∧ SplitsOf s.rest stream

theorem splitsOf_tags (t : Text) : SplitsOf t (tags t) := by
  induction t using tags.induct with
  | case1 t h => rw [tags_of_nextTag_none h]; exact h
  | case2 t s h ih => rw [tags_of_nextTag h]; exact ⟨h, ih⟩

theorem tags_of_splitsOf {t : Text} {stream : List TagSplit} (h : SplitsOf t stream) :
    tags t = stream := by
  induction stream generalizing t with
  | nil => exact tags_of_nextTag_none h
  | cons s stream ih => rw [tags_of_nextTag h.1, ih h.2]

end Stencil
