import Stencil.Proofs.Render.Tree

/-!
# The tags that a tree mentions

A tree keeps the places of two kinds of tags: those that include partials, and those that open
blocks. These are its marks. What a tree says about a template, it says with the place of a mark,
and the partials that it needs are those which its marks name; so both come down to one fact:

* `mem_of_mem_marksAll_treeOf` — every mark of a tree is a token that the tree was read from.

The parser keeps this from tag to tag (`Parser.mem_marks_step`): it has no marks but those of the
tags that it has read.
-/

namespace Stencil

/-! ### Marks -/

/-- A **tag in its place**, as a tree mentions it. -/
structure Mark where
  tag : Tag
  /-- The byte at which the tag begins. -/
  start : Nat
  /-- The byte behind the tag. -/
  stop : Nat
  deriving DecidableEq, Repr

/-- The mark of a token. -/
def Token.mark (k : Token) : Mark :=
  ⟨k.tag, k.start, k.stop⟩

/-- The mark of the opening tag of a block. -/
def BlockHead.mark (head : BlockHead) (kind : BlockKind) : Mark :=
  ⟨.opening kind head.path, head.start, head.stop⟩

mutual

/-- The marks of a fragment. -/
def Fragment.marks : Fragment → List Mark
  | .text _ => []
  | .value _ => []
  | .alternative => []
  | .inclusion name start stop => [⟨.inclusion name, start, stop⟩]
  | .each head body => head.mark .each :: marksAll body
  | .cond head first other? =>
    head.mark .cond :: (marksAll first ++
      match other? with
      | none => []
      | some other => marksAll other)
  | .notCond head body => head.mark .notCond :: marksAll body

/-- The marks of fragments. -/
def marksAll : List Fragment → List Mark
  | [] => []
  | x :: rest => x.marks ++ marksAll rest

end

@[simp] theorem marksAll_nil : marksAll [] = [] := by
  rw [marksAll]

@[simp] theorem marksAll_cons (x : Fragment) (rest : List Fragment) :
    marksAll (x :: rest) = x.marks ++ marksAll rest := by
  rw [marksAll]

@[simp] theorem marksAll_append (xs ys : List Fragment) :
    marksAll (xs ++ ys) = marksAll xs ++ marksAll ys := by
  induction xs with
  | nil => simp
  | cons x xs ih => simp [ih]

theorem Fragment.marks_cond (head : BlockHead) (first : List Fragment)
    (other? : Option (List Fragment)) :
    (Fragment.cond head first other?).marks
      = head.mark .cond :: (marksAll first ++ (other?.map marksAll).getD []) := by
  cases other? with
  | none =>
    rw [Fragment.marks]
    rfl
  | some other =>
    rw [Fragment.marks]
    rfl

/-- Splitting a body into branches makes no marks. -/
theorem mem_marksAll_of_splitAlternative {m : Mark} {body : List Fragment}
    (h : m ∈ marksAll (splitAlternative body).1 ++
      ((splitAlternative body).2.map marksAll).getD []) : m ∈ marksAll body := by
  induction body with
  | nil => simp [splitAlternative] at h
  | cons x body ih =>
    rw [marksAll_cons, List.mem_append]
    rw [List.mem_append] at h ih
    unfold splitAlternative at h
    split at h
    · next hnil => cases hnil
    · next rest hcons =>
      -- the separator itself has no mark
      obtain ⟨rfl, rfl⟩ := List.cons.inj hcons
      exact .inr (by simpa using h)
    · next y rest _ hcons =>
      obtain ⟨rfl, rfl⟩ := List.cons.inj hcons
      rw [marksAll_cons, List.mem_append] at h
      rcases h with (h | h) | h
      · exact .inl h
      · exact .inr (ih (.inl h))
      · exact .inr (ih (.inr h))

/-! ### Marks of the parser -/

/-- The mark of the tag that opened a block. -/
def Frame.mark (f : Frame) : Mark :=
  ⟨.opening f.kind f.path, f.start, f.stop⟩

/-- The marks of a block that is open and of what stands before it. -/
def Frame.marks (f : Frame) : List Mark :=
  marksAll f.before ++ [f.mark]

theorem Frame.mem_marks_block {f : Frame} {close : Option BlockKind} {body : List Fragment}
    {m : Mark} (h : m ∈ (f.block close body).marks) : m = f.mark ∨ m ∈ marksAll body := by
  unfold Frame.block at h
  split at h
  -- each block marks itself; only an `if` block splits its body, which marks nothing new
  · next hkind =>
    rw [Fragment.marks, List.mem_cons] at h
    rw [Frame.mark, hkind]
    exact h
  · next hkind =>
    rw [Fragment.marks_cond, List.mem_cons] at h
    rw [Frame.mark, hkind]
    exact h.imp_right mem_marksAll_of_splitAlternative
  · next hkind =>
    rw [Fragment.marks, List.mem_cons] at h
    rw [Frame.mark, hkind]
    exact h

/-- What ends a block makes no marks. -/
theorem Frame.mem_marksAll_ended {f : Frame} {close : Option BlockKind} {body : List Fragment}
    {m : Mark} (h : m ∈ marksAll (f.before ++ [f.block close body])) :
    m ∈ f.marks ∨ m ∈ marksAll body := by
  rw [marksAll_append, marksAll_cons, marksAll_nil, List.append_nil, List.mem_append] at h
  rw [Frame.marks, List.mem_append, List.mem_singleton]
  rcases h with h | h
  · exact .inl (.inl h)
  · exact (Frame.mem_marks_block h).imp_left .inr

namespace Parser

/-- The marks of all that a parser has read. -/
def marks (p : Parser) : List Mark :=
  marksAll p.fragments ++ p.frames.flatMap Frame.marks

theorem mem_marks_push {p : Parser} {x : Fragment} {m : Mark} :
    m ∈ (p.push x).marks ↔ m ∈ p.marks ∨ m ∈ x.marks := by
  simp only [marks, push, marksAll_append, marksAll_cons, marksAll_nil, List.append_nil,
    List.mem_append]
  constructor
  · rintro ((h | h) | h)
    · exact .inl (.inl h)
    · exact .inr h
    · exact .inl (.inr h)
  · rintro ((h | h) | h)
    · exact .inl (.inl h)
    · exact .inr h
    · exact .inl (.inr h)

theorem mem_marks_push_text {p : Parser} {t : Text} {m : Mark} :
    m ∈ (p.push (.text t)).marks ↔ m ∈ p.marks := by
  rw [mem_marks_push, Fragment.marks]
  simp

/-- Reading a tag makes no mark but that of the tag. -/
theorem mem_marks_step {p : Parser} {k : Token} {m : Mark} (h : m ∈ (p.step k).marks) :
    m ∈ p.marks ∨ m = k.mark := by
  unfold step at h
  -- the text in front of the tag makes no mark, whatever the tag is
  rw [← mem_marks_push_text (t := k.before)]
  generalize p.push (.text k.before) = p at h ⊢
  simp only at h
  split at h
  · rw [mem_marks_push, Fragment.marks] at h
    exact h.imp_right fun h => absurd h List.not_mem_nil
  · rw [mem_marks_push, Fragment.marks] at h
    exact h.imp_right fun h => absurd h List.not_mem_nil
  · next htag =>
    rw [mem_marks_push, Fragment.marks, List.mem_singleton] at h
    rw [Token.mark, htag]
    exact h
  · next htag =>
    -- what stood before the block waits in the frame, together with the tag itself
    rw [marks, List.flatMap_cons, marksAll_nil, List.nil_append, Frame.marks, Frame.mark] at h
    rw [marks, Token.mark, htag]
    simp only [List.mem_append, List.mem_singleton] at h ⊢
    rcases h with (h | h) | h
    · exact .inl (.inl h)
    · exact .inr h
    · exact .inl (.inr h)
  · split at h
    · exact .inl (mem_marks_push_text.1 h)
    · next f outer hframes =>
      -- a block that ends moves from its frame into what stands around it
      rw [marks, List.mem_append] at h
      rw [marks, hframes, List.flatMap_cons, List.mem_append, List.mem_append]
      rcases h with h | h
      · rcases Frame.mem_marksAll_ended h with h | h
        · exact .inl (.inr (.inl h))
        · exact .inl (.inl h)
      · exact .inl (.inr (.inr h))

/-- Ending the open blocks makes no marks. -/
theorem mem_marksAll_finish {fragments : List Fragment} {frames : List Frame} {m : Mark}
    (h : m ∈ marksAll (finish fragments frames)) : m ∈ (⟨fragments, frames⟩ : Parser).marks := by
  induction frames generalizing fragments with
  | nil => exact List.mem_append_left _ h
  | cons f outer ih =>
    have hmem := ih h
    rw [marks, List.mem_append] at hmem
    rw [marks, List.flatMap_cons, List.mem_append, List.mem_append]
    rcases hmem with hmem | hmem
    · rcases Frame.mem_marksAll_ended hmem with hmem | hmem
      · exact .inr (.inl hmem)
      · exact .inl hmem
    · exact .inr (.inr hmem)

/-- **A run of the parser** makes no marks but those of its tags. -/
theorem mem_marks_foldl_step {p : Parser} {ks : List Token} {m : Mark}
    (h : m ∈ (ks.foldl step p).marks) : m ∈ p.marks ∨ ∃ k ∈ ks, m = k.mark := by
  induction ks generalizing p with
  | nil => exact .inl h
  | cons k ks ih =>
    rcases ih h with h | ⟨k', hk', hm⟩
    · rcases mem_marks_step h with h | h
      · exact .inl h
      · exact .inr ⟨k, List.mem_cons_self, h⟩
    · exact .inr ⟨k', List.mem_cons_of_mem _ hk', hm⟩

end Parser

/-- **Every mark of a tree** is a token that it was read from. -/
theorem mem_of_mem_marksAll_treeOf {ks : List Token} {last : Text} {m : Mark}
    (h : m ∈ marksAll (treeOf ks last)) : ∃ k ∈ ks, m = k.mark := by
  have hmem : m ∈ ((ks.foldl Parser.step ⟨[], []⟩).push (.text last)).marks :=
    Parser.mem_marksAll_finish h
  rw [Parser.mem_marks_push_text] at hmem
  rcases Parser.mem_marks_foldl_step hmem with hmem | hmem
  · simp [Parser.marks] at hmem
  · exact hmem

end Stencil
