/-!
# Text

Everything this library reads and writes is Unicode text, held as the list of its characters, so
that a lexer is a function on lists and a slice of a source is a part of a list. A text is cut at
separators, into two or into all its pieces, and its ends are trimmed. A property of characters that
Unicode lists rather than computes is a table of the ranges that have it.

* `cutAt?_eq_some` — what `cutAt?` returns is the text before and after the first separator;
* `unpieces_pieces`, `pieces_unpieces` — a text is its pieces with separators in between.
-/

namespace Stencil

/-- **Unicode text**, as the list of its characters. -/
abbrev Text := List Char

namespace Text

/-! ### Cutting at separators -/

/-- The text before and after the first `sep`. -/
def cutAt? (sep : Char → Bool) : Text → Option (Text × Text)
  | [] => none
  | c :: t =>
    if sep c then some ([], t)
    else (cutAt? sep t).map fun cut => (c :: cut.1, cut.2)

theorem cutAt?_eq_some {sep : Char → Bool} {t before after : Text}
    (h : cutAt? sep t = some (before, after)) :
    ∃ c, sep c = true ∧ t = before ++ c :: after ∧ ∀ d ∈ before, sep d = false := by
  induction t generalizing before with
  | nil => simp [cutAt?] at h
  | cons c t ih =>
    -- the cut is made here, or further on
    by_cases hc : sep c = true
    · simp only [cutAt?, hc, if_true, Option.some.injEq, Prod.mk.injEq] at h
      obtain ⟨rfl, rfl⟩ := h
      exact ⟨c, hc, by simp, by simp⟩
    · rw [cutAt?, if_neg hc, Option.map_eq_some_iff] at h
      obtain ⟨⟨b, a⟩, hcut, heq⟩ := h
      obtain ⟨rfl, rfl⟩ := Prod.mk.injEq .. ▸ heq
      obtain ⟨s, hs, ht, hb⟩ := ih hcut
      refine ⟨s, hs, by simp [ht], ?_⟩
      intro d hd
      rcases List.mem_cons.1 hd with rfl | hd
      · simpa using hc
      · exact hb d hd

theorem cutAt?_append_cons {sep : Char → Bool} {before : Text} {c : Char} (after : Text)
    (hbefore : ∀ d ∈ before, sep d = false) (hc : sep c = true) :
    cutAt? sep (before ++ c :: after) = some (before, after) := by
  induction before with
  | nil => rw [List.nil_append, cutAt?, if_pos hc]
  | cons d before ih =>
    have hd : ¬ sep d = true := by simp [hbefore d List.mem_cons_self]
    rw [List.cons_append, cutAt?, if_neg hd, ih fun x hx => hbefore x (List.mem_cons_of_mem _ hx)]
    rfl

theorem cutAt?_eq_none {sep : Char → Bool} {t : Text} (h : ∀ c ∈ t, sep c = false) :
    cutAt? sep t = none := by
  induction t with
  | nil => rfl
  | cons c t ih =>
    have hc : ¬ sep c = true := by simp [h c List.mem_cons_self]
    rw [cutAt?, if_neg hc, ih fun x hx => h x (List.mem_cons_of_mem _ hx)]
    rfl

/-- The pieces between the separators: one more than there are separators, so never none. -/
def pieces (sep : Char) : Text → List Text
  | [] => [[]]
  | c :: t =>
    if c = sep then [] :: pieces sep t
    else
      match pieces sep t with
      | [] => [[c]]
      | p :: ps => (c :: p) :: ps

theorem pieces_ne_nil (sep : Char) (t : Text) : pieces sep t ≠ [] := by
  cases t with
  | nil => simp [pieces]
  | cons c t =>
    by_cases h : c = sep
    · simp [pieces, h]
    · simp only [pieces, h, if_false]
      split <;> simp

/-- A separator between two texts separates their pieces. -/
theorem pieces_append_cons (sep : Char) (a b : Text) :
    pieces sep (a ++ sep :: b) = pieces sep a ++ pieces sep b := by
  induction a with
  | nil => simp [pieces]
  | cons c a ih =>
    by_cases h : c = sep
    · simp [pieces, h, ih]
    · simp only [List.cons_append, pieces, h, if_false, ih]
      cases hp : pieces sep a with
      | nil => exact absurd hp (pieces_ne_nil sep a)
      | cons p ps => rfl

theorem pieces_of_notMem {sep : Char} {t : Text} (h : sep ∉ t) : pieces sep t = [t] := by
  induction t with
  | nil => rfl
  | cons c t ih =>
    obtain ⟨hc, ht⟩ := List.ne_and_not_mem_of_not_mem_cons h
    rw [pieces, if_neg (Ne.symm hc), ih ht]

/-- No piece holds a separator. -/
theorem notMem_of_mem_pieces {sep : Char} {t piece : Text} (h : piece ∈ pieces sep t) :
    sep ∉ piece := by
  induction t generalizing piece with
  | nil => simp_all [pieces]
  | cons c t ih =>
    -- a character other than `sep` joins the first piece
    by_cases hc : c = sep
    · rw [pieces, if_pos hc] at h
      rcases List.mem_cons.1 h with rfl | h
      · exact List.not_mem_nil
      · exact ih h
    · rw [pieces, if_neg hc] at h
      cases hp : pieces sep t with
      | nil => exact absurd hp (pieces_ne_nil sep t)
      | cons p ps =>
        rw [hp] at h
        rcases List.mem_cons.1 h with rfl | h
        · have hfirst := ih (hp ▸ List.mem_cons_self)
          exact fun hmem => (List.mem_cons.1 hmem).elim (fun heq => hc heq.symm) hfirst
        · exact ih (hp ▸ List.mem_cons_of_mem _ h)

/-- The inverse of `pieces`: the pieces with a separator between each two. -/
def unpieces (sep : Char) : List Text → Text
  | [] => []
  | [p] => p
  | p :: q :: ps => p ++ sep :: unpieces sep (q :: ps)

theorem unpieces_pieces (sep : Char) (t : Text) : unpieces sep (pieces sep t) = t := by
  induction t with
  | nil => rfl
  | cons c t ih =>
    by_cases h : c = sep
    · subst h
      simp only [pieces, if_true]
      cases hp : pieces c t with
      | nil => exact absurd hp (pieces_ne_nil c t)
      | cons p ps => simp [unpieces, ← hp, ih]
    · simp only [pieces, h, if_false]
      cases hp : pieces sep t with
      | nil => exact absurd hp (pieces_ne_nil sep t)
      | cons p ps =>
        cases ps with
        | nil => simpa [unpieces, hp] using ih
        | cons q ps => simpa [unpieces, hp] using ih

theorem pieces_unpieces {sep : Char} {pieces : List Text} (hne : pieces ≠ [])
    (h : ∀ piece ∈ pieces, sep ∉ piece) : Text.pieces sep (unpieces sep pieces) = pieces := by
  induction pieces with
  | nil => exact absurd rfl hne
  | cons piece rest ih =>
    have hpiece := pieces_of_notMem (h piece List.mem_cons_self)
    cases rest with
    | nil => exact hpiece
    | cons next rest =>
      -- the first cut is made at the separator behind the first piece
      rw [unpieces, pieces_append_cons, hpiece,
        ih (by simp) fun x hx => h x (List.mem_cons_of_mem _ hx)]
      rfl

theorem unpieces_concat {sep : Char} {pieces : List Text} (hne : pieces ≠ []) (last : Text) :
    unpieces sep (pieces ++ [last]) = unpieces sep pieces ++ sep :: last := by
  induction pieces with
  | nil => exact absurd rfl hne
  | cons piece rest ih =>
    cases rest with
    | nil => rfl
    | cons next rest =>
      rw [List.cons_append, List.cons_append, unpieces, ← List.cons_append, ih (by simp), unpieces,
        List.append_assoc, List.cons_append]

/-- The text around the last `sep`, if there is one. -/
def cutAtLast? (sep : Char → Bool) (t : Text) : Option (Text × Text) :=
  (cutAt? sep t.reverse).map fun cut => (cut.2.reverse, cut.1.reverse)

theorem cutAtLast?_append_cons {sep : Char → Bool} (before : Text) {c : Char} {after : Text}
    (hafter : ∀ d ∈ after, sep d = false) (hc : sep c = true) :
    cutAtLast? sep (before ++ c :: after) = some (before, after) := by
  have hreverse : ∀ d ∈ after.reverse, sep d = false := fun d hd => hafter d (List.mem_reverse.1 hd)
  rw [cutAtLast?, List.reverse_append, List.reverse_cons, List.append_assoc, List.singleton_append,
    cutAt?_append_cons _ hreverse hc, Option.map_some, List.reverse_reverse, List.reverse_reverse]

theorem cutAtLast?_eq_none {sep : Char → Bool} {t : Text} (h : ∀ c ∈ t, sep c = false) :
    cutAtLast? sep t = none := by
  rw [cutAtLast?, cutAt?_eq_none fun c hc => h c (List.mem_reverse.1 hc)]
  rfl

theorem cutAtLast?_eq_some {sep : Char → Bool} {t before after : Text}
    (h : cutAtLast? sep t = some (before, after)) :
    ∃ c, sep c = true ∧ t = before ++ c :: after := by
  obtain ⟨⟨behind, ahead⟩, hcut, heq⟩ := Option.map_eq_some_iff.1 h
  obtain ⟨rfl, rfl⟩ := Prod.mk.inj heq
  obtain ⟨c, hc, hreverse, -⟩ := cutAt?_eq_some hcut
  refine ⟨c, hc, ?_⟩
  rw [← List.reverse_reverse t, hreverse, List.reverse_append, List.reverse_cons, List.append_assoc,
    List.singleton_append]

/-! ### Trimming -/

/-- `t` without the characters at its end that satisfy `p`. -/
def trimRight (p : Char → Bool) (t : Text) : Text :=
  (t.reverse.dropWhile p).reverse

/-- `t` without the characters at both ends that satisfy `p`. -/
def trim (p : Char → Bool) (t : Text) : Text :=
  trimRight p (t.dropWhile p)

/-- ASCII whitespace: space, tab, line feed, form feed and carriage return. -/
def isBlank (c : Char) : Bool :=
  c = ' ' || c = '\t' || c = '\n' || c = '\x0c' || c = '\r'

end Text

/-! ### Tables of characters -/

/-- A **table**: ranges of code points beyond ASCII, both ends included, in rising order. ASCII
characters never stand in a table; a class of characters decides them by itself, so that what it
says about them can be read off its definition. -/
abbrev CharTable := List (Nat × Nat)

/-- Whether a range of the table holds `c`. The search stops at the first range that ends at or
beyond `c`, as all later ones start beyond it. -/
def CharTable.contains : CharTable → Char → Bool
  | [], _ => false
  | (first, last) :: rest, c =>
    if last < c.toNat then contains rest c else first ≤ c.toNat

end Stencil
