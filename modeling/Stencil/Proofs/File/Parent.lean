import Stencil.Proofs.File.Spot

/-!
# Parents and spellings

The parent of a path is found in its pieces, from behind: pieces that lead nowhere are dropped, then
the last one that leads somewhere, and then again those that lead nowhere. In steps all this comes
to one thing:

* `FilePath.bareSteps_of_parent?_eq_some` — the parent of a path lacks its last step;
* `FilePath.bareSteps_of_parent?_eq_none` — a path without a parent has no step to lack.
-/

namespace Stencil.FilePath

/-! ### Pieces that lead nowhere -/

/-- Whether a piece of a path leads nowhere. -/
def IsVoid (piece : Text) : Prop :=
  piece = [] ∨ piece = ['.']

theorem stepOf_eq_stay_iff {piece : Text} : stepOf piece = .stay ↔ IsVoid piece := by
  unfold stepOf
  split
  · next h => exact iff_of_true rfl h
  · next h =>
    refine iff_of_false ?_ h
    split
    · exact nofun
    · exact nofun

theorem bareStepsOf_of_isVoid {pieces : List Text} (h : ∀ piece ∈ pieces, IsVoid piece) :
    bareStepsOf pieces = [] := by
  rw [bareStepsOf, List.filter_eq_nil_iff]
  intro x hx
  obtain ⟨piece, hpiece, rfl⟩ := List.mem_map.1 hx
  rw [stepOf_eq_stay_iff.2 (h piece hpiece)]
  decide

theorem bareStepsOf_singleton {piece : Text} (h : ¬ IsVoid piece) :
    bareStepsOf [piece] = [stepOf piece] := by
  refine List.filter_eq_self.2 fun x hx => ?_
  rw [List.mem_singleton.1 hx]
  exact decide_eq_true (mt stepOf_eq_stay_iff.1 h)

/-- What is dropped leads nowhere. -/
theorem exists_append_dropVoid (pieces : List Text) :
    ∃ dropped, pieces = dropped ++ dropVoid pieces ∧ ∀ piece ∈ dropped, IsVoid piece := by
  induction pieces with
  | nil => exact ⟨[], rfl, nofun⟩
  | cons piece rest ih =>
    cases rest with
    | nil => exact ⟨[], rfl, nofun⟩
    | cons next rest =>
      rw [dropVoid]
      split
      · next hvoid =>
        obtain ⟨dropped, hrest, hdropped⟩ := ih
        refine ⟨piece :: dropped, ?_, List.forall_mem_cons.2 ⟨hvoid, hdropped⟩⟩
        rw [List.cons_append, ← hrest]
      · exact ⟨[], rfl, nofun⟩

/-- What is dropped from behind does not count. -/
theorem bareStepsOf_reverse_dropVoid (pieces : List Text) :
    bareStepsOf (dropVoid pieces).reverse = bareStepsOf pieces.reverse := by
  obtain ⟨dropped, hpieces, hdropped⟩ := exists_append_dropVoid pieces
  conv_rhs => rw [hpieces]
  rw [List.reverse_append, bareStepsOf_append,
    bareStepsOf_of_isVoid fun piece hpiece => hdropped piece (List.mem_reverse.1 hpiece),
    List.append_nil]

/-! ### Beginnings -/

/-- A path is absolute if its first piece is empty, and not its only one. -/
theorem isAbsolute_iff_pieces (p : FilePath) :
    p.isAbsolute = true ↔ ∃ next rest, p.pieces '/' = [] :: next :: rest := by
  cases p with
  | nil =>
    refine iff_of_false nofun ?_
    rintro ⟨next, rest, h⟩
    cases h
  | cons c t =>
    -- only a slash in front makes the first piece empty
    by_cases hc : c = '/'
    · subst hc
      refine iff_of_true rfl ?_
      cases ht : Text.pieces '/' t with
      | nil => exact absurd ht (Text.pieces_ne_nil '/' t)
      | cons next rest => exact ⟨next, rest, by rw [Text.pieces, if_pos rfl, ht]⟩
    · refine iff_of_false (fun h => hc (Option.some.inj (of_decide_eq_true h))) ?_
      rintro ⟨next, rest, h⟩
      rw [Text.pieces, if_neg hc] at h
      split at h
      · cases h
      · cases h

/-- Pieces behind a piece that is not alone do not decide where a path begins. -/
theorem isAbsolute_eq_of_pieces {p q : FilePath} {first : Text} {others more : List Text}
    (hp : p.pieces '/' = first :: others ++ more) (hq : q.pieces '/' = first :: others)
    (hfirst : others = [] → first ≠ []) : q.isAbsolute = p.isAbsolute := by
  rw [Bool.eq_iff_iff, isAbsolute_iff_pieces, isAbsolute_iff_pieces, hp, hq]
  cases others with
  | nil =>
    refine iff_of_false ?_ ?_
    · rintro ⟨next, rest, h⟩
      cases h
    · rintro ⟨next, rest, h⟩
      exact hfirst rfl (List.cons.inj h).1
  | cons second others =>
    -- both have a second piece, so the first one decides
    constructor
    · rintro ⟨next, rest, h⟩
      obtain ⟨rfl, -⟩ := List.cons.inj h
      exact ⟨second, others ++ more, rfl⟩
    · rintro ⟨next, rest, h⟩
      obtain ⟨rfl, -⟩ := List.cons.inj h
      exact ⟨second, others, rfl⟩

/-! ### Parents -/

/-- **A path without a parent** leads nowhere from where it begins. -/
theorem bareSteps_of_parent?_eq_none {p : FilePath} (h : p.parent? = none) :
    p.bareSteps = if p.isAbsolute then [.top] else [] := by
  have hpieces := bareStepsOf_reverse_dropVoid (p.pieces '/').reverse
  rw [List.reverse_reverse] at hpieces
  unfold parent? at h
  split at h
  · next hnil =>
    rw [hnil] at hpieces
    rw [bareSteps_eq, ← hpieces]
    exact List.append_nil _
  -- one piece is left, and it is empty: the path is all slashes and steps to nowhere
  · next piece hpiece =>
    split at h
    · next hempty =>
      rw [hpiece, hempty] at hpieces
      rw [bareSteps_eq, ← hpieces]
      exact List.append_nil _
    · cases h
  · split at h
    · cases h
    · cases h

/-- A path of which all but the first piece leads nowhere has no step behind its first one. -/
theorem dropLast_bareSteps_of_pieces {p : FilePath} {piece : Text} {more : List Text}
    (hp : p.pieces '/' = piece :: more) (hne : piece ≠ [])
    (hmore : ∀ other ∈ more, IsVoid other) : p.bareSteps.dropLast = [] := by
  -- the first piece of an absolute path is empty
  have habsolute : p.isAbsolute = false := by
    rw [← Bool.not_eq_true, isAbsolute_iff_pieces, hp]
    rintro ⟨next, rest, h⟩
    exact hne (List.cons.inj h).1
  rw [bareSteps_of_relative habsolute, hp, ← List.singleton_append, bareStepsOf_append,
    bareStepsOf_of_isVoid hmore, List.append_nil]
  by_cases hvoid : IsVoid piece
  · rw [bareStepsOf_of_isVoid fun other hother => List.mem_singleton.1 hother ▸ hvoid]
    rfl
  · rw [bareStepsOf_singleton hvoid]
    rfl

/-- The path of some pieces begins where a path begins that has more of them. -/
theorem isAbsolute_unpieces {p : FilePath} {outer more : List Text} (hne : outer ≠ [])
    (hempty : outer ≠ [[]]) (hp : p.pieces '/' = outer ++ more) :
    (Text.unpieces '/' outer).pieces '/' = outer ∧
      FilePath.isAbsolute (Text.unpieces '/' outer) = p.isAbsolute := by
  have hpieces : (Text.unpieces '/' outer).pieces '/' = outer := by
    refine Text.pieces_unpieces hne fun piece hpiece => ?_
    refine Text.notMem_of_mem_pieces (t := p) ?_
    rw [hp]
    exact List.mem_append_left _ hpiece
  obtain ⟨first, others, rfl⟩ := List.exists_cons_of_ne_nil hne
  refine ⟨hpieces, isAbsolute_eq_of_pieces hp hpieces ?_⟩
  rintro rfl rfl
  exact hempty rfl

/-- **The parent of a path** lacks its last step. -/
theorem bareSteps_of_parent?_eq_some {p q : FilePath} (h : p.parent? = some q) :
    q.bareSteps = p.bareSteps.dropLast := by
  obtain ⟨dropped, hdrop, hdropped⟩ := exists_append_dropVoid (p.pieces '/').reverse
  rw [List.reverse_eq_iff] at hdrop
  unfold parent? at h
  split at h
  · cases h
  · next piece hpiece =>
    split at h
    · cases h
    · next hne =>
      -- only the first piece is left, and its parent is where the path begins
      obtain rfl := Option.some.inj h
      rw [hpiece, List.reverse_append] at hdrop
      rw [dropLast_bareSteps_of_pieces hdrop hne fun other hother =>
        hdropped other (List.mem_reverse.1 hother)]
      rfl
  · next piece next rest hrest =>
    -- the last piece that leads somewhere is the last step, and the parent has all before it
    obtain ⟨dropped', hdrop', -⟩ := exists_append_dropVoid (next :: rest)
    have houter := bareStepsOf_reverse_dropVoid (next :: rest)
    have hne : dropVoid (next :: rest) ≠ [] := dropVoid_ne_nil (List.cons_ne_nil _ _)
    generalize dropVoid (next :: rest) = outer at h hdrop' houter hne
    have hsteps : p.bareSteps.dropLast
        = (if p.isAbsolute then [.top] else []) ++ bareStepsOf outer.reverse := by
      rw [bareSteps_eq, hdrop, hrest, List.reverse_append, bareStepsOf_append,
        bareStepsOf_of_isVoid (fun other hother => hdropped other (List.mem_reverse.1 hother)),
        List.append_nil, List.reverse_cons, bareStepsOf_append,
        bareStepsOf_singleton (not_void_of_dropVoid hrest), ← List.append_assoc,
        List.dropLast_concat, houter]
    have hpieces : p.pieces '/' = outer.reverse ++
        (dropped'.reverse ++ piece :: dropped.reverse) := by
      rw [hdrop, hrest, List.reverse_append, List.reverse_cons, hdrop', List.reverse_append,
        List.append_assoc, List.append_assoc, List.singleton_append]
    rw [hsteps]
    split at h
    · -- nothing but the empty piece in front of the first slash is left: the parent is the top
      obtain rfl := Option.some.inj h
      have habsolute : p.isAbsolute = true := by
        obtain ⟨second, others, hmore⟩ := List.exists_cons_of_ne_nil
          (List.append_ne_nil_of_right_ne_nil dropped'.reverse
            (List.cons_ne_nil piece dropped.reverse))
        exact (isAbsolute_iff_pieces p).2 ⟨second, others, by rw [hpieces, hmore]; rfl⟩
      rw [habsolute]
      rfl
    · next hempty =>
      obtain rfl := Option.some.inj h
      obtain ⟨hq, habsolute⟩ := isAbsolute_unpieces (mt List.reverse_eq_nil_iff.1 hne)
        (fun heq => hempty (List.reverse_eq_iff.1 heq)) hpieces
      rw [bareSteps_eq, hq, habsolute]

end Stencil.FilePath
