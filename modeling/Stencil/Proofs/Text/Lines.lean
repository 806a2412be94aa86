import Stencil.Text.Utf8

/-!
# Lines

A line of a text is what stands between two line breaks next to each other, or between one and an
end of the text (`Text.IsLine`). As many line breaks as stand before a line, as many lines do. So
the line is found by its number among the pieces of the text, and also by the byte at which it
begins, among the bytes behind line breaks:

* `Text.exists_isLine` — there is a line behind any number of line breaks that the text has;
* `Text.IsLine.getElem?_pieces` — it is the piece of that number;
* `Text.IsLine.getElem?_lineStarts`, `Text.IsLine.getElem?_lineStarts_succ` — the bytes at which it
  and the next one begin are those of that number and the next one.
-/

namespace Stencil

namespace Text

/-- Whether a text **has a line** between what stands before and behind it. -/
structure IsLine (source before line after : Text) : Prop where
  source_eq : source = before ++ line ++ after
  notMem : '\n' ∉ line
  before_eq : before = [] ∨ ∃ lines, before = lines ++ ['\n']
  after_eq : after = [] ∨ ∃ lines, after = '\n' :: lines

/-- A text is one line, or it has a first line before a line break. -/
theorem exists_first_line (t : Text) : ∃ line after, t = line ++ after ∧ '\n' ∉ line ∧
    (after = [] ∨ ∃ lines, after = '\n' :: lines) := by
  by_cases h : '\n' ∈ t
  · obtain ⟨line, lines, rfl, hline⟩ := List.eq_append_cons_of_mem h
    exact ⟨line, _, rfl, hline, .inr ⟨lines, rfl⟩⟩
  · exact ⟨t, [], (List.append_nil t).symm, h, .inl rfl⟩

/-- **Behind so many line breaks** there is a line, if the text has as many. -/
theorem exists_isLine {source : Text} {n : Nat} (h : n ≤ source.count '\n') :
    ∃ before line after, source.IsLine before line after ∧ before.count '\n' = n := by
  induction n generalizing source with
  | zero =>
    obtain ⟨line, after, rfl, hline, hafter⟩ := exists_first_line source
    exact ⟨[], line, after, ⟨rfl, hline, .inl rfl, hafter⟩, rfl⟩
  | succ n ih =>
    have hmem : '\n' ∈ source := List.count_pos_iff.1 (by omega)
    obtain ⟨first, rest, rfl, hfirst⟩ := List.eq_append_cons_of_mem hmem
    have hcount : (first ++ '\n' :: rest).count '\n' = rest.count '\n' + 1 := by
      rw [List.count_append, List.count_eq_zero.2 hfirst, List.count_cons_self, Nat.zero_add]
    obtain ⟨before, line, after, hline, rfl⟩ := ih (show n ≤ rest.count '\n' by omega)
    -- what stands before the line still ends in a line break
    refine ⟨first ++ '\n' :: before, line, after, ⟨?_, hline.notMem, .inr ?_, hline.after_eq⟩, ?_⟩
    · rw [hline.source_eq]
      simp
    · rcases hline.before_eq with rfl | ⟨lines, rfl⟩
      · exact ⟨first, rfl⟩
      · exact ⟨first ++ '\n' :: lines, by simp⟩
    · rw [List.count_append, List.count_eq_zero.2 hfirst, List.count_cons_self, Nat.zero_add]

/-! ### Pieces -/

/-- There is one piece more than there are separators. -/
theorem length_pieces (sep : Char) (t : Text) : (pieces sep t).length = t.count sep + 1 := by
  induction t with
  | nil => rfl
  | cons c t ih =>
    by_cases hc : c = sep
    · rw [pieces, if_pos hc, List.length_cons, ih, hc, List.count_cons_self]
    · rw [pieces, if_neg hc, List.count_cons_of_ne hc, ← ih]
      cases hpieces : pieces sep t with
      | nil => exact absurd hpieces (pieces_ne_nil sep t)
      | cons p ps => rfl

namespace IsLine

variable {source before line after : Text} (h : source.IsLine before line after)
include h

theorem count_le : before.count '\n' ≤ source.count '\n' := by
  rw [h.source_eq, List.count_append, List.count_append]
  omega

/-- The text has no more lines exactly if nothing stands behind the line. -/
theorem count_eq_iff : before.count '\n' = source.count '\n' ↔ after = [] := by
  rw [h.source_eq, List.count_append, List.count_append, List.count_eq_zero.2 h.notMem]
  rcases h.after_eq with rfl | ⟨lines, rfl⟩
  · simp
  · simp

/-- **A line is the piece** that has as many others before it as line breaks. -/
theorem getElem?_pieces : (source.pieces '\n')[before.count '\n']? = some line := by
  have hfirst : (pieces '\n' (line ++ after))[0]? = some line := by
    rcases h.after_eq with rfl | ⟨lines, rfl⟩
    · rw [List.append_nil, pieces_of_notMem h.notMem]
      rfl
    · rw [pieces_append_cons, pieces_of_notMem h.notMem]
      rfl
  rw [h.source_eq, List.append_assoc]
  rcases h.before_eq with rfl | ⟨lines, rfl⟩
  · exact hfirst
  -- the lines in front are as many as the line feeds before the line
  · have hcount : (lines ++ ['\n']).count '\n' = (pieces '\n' lines).length + 0 := by
      rw [length_pieces, List.count_append, List.count_singleton_self]
    rw [hcount, List.append_assoc, List.singleton_append, pieces_append_cons,
      List.getElem?_append_right (by omega), Nat.add_sub_cancel_left]
    exact hfirst

end IsLine

/-! ### Where lines begin -/

/-- The bytes behind the line breaks of a text that begins at byte `offset`. -/
def breaksFrom (offset : Nat) : Text → List Nat
  | [] => []
  | c :: t =>
    if c = '\n' then (offset + 1) :: breaksFrom (offset + 1) t
    else breaksFrom (offset + c.utf8Size) t

/-- The bytes at which the lines of a text begin. -/
def lineStarts (source : Text) : List Nat :=
  0 :: breaksFrom 0 source

theorem breaksFrom_append (offset : Nat) (a b : Text) :
    breaksFrom offset (a ++ b) = breaksFrom offset a ++ breaksFrom (offset + a.size) b := by
  induction a generalizing offset with
  | nil => rfl
  | cons c a ih =>
    rw [List.cons_append, breaksFrom, breaksFrom, size_cons]
    by_cases hc : c = '\n'
    · have hsize : c.utf8Size = 1 := by rw [hc]; rfl
      rw [if_pos hc, if_pos hc, ih, List.cons_append, hsize, Nat.add_assoc]
    · rw [if_neg hc, if_neg hc, ih, Nat.add_assoc]

theorem length_breaksFrom (offset : Nat) (t : Text) :
    (breaksFrom offset t).length = t.count '\n' := by
  induction t generalizing offset with
  | nil => rfl
  | cons c t ih =>
    by_cases hc : c = '\n'
    · rw [breaksFrom, if_pos hc, List.length_cons, ih, hc, List.count_cons_self]
    · rw [breaksFrom, if_neg hc, ih, List.count_cons_of_ne hc]

theorem length_lineStarts (source : Text) :
    (lineStarts source).length = source.count '\n' + 1 := by
  rw [lineStarts, List.length_cons, length_breaksFrom]

namespace IsLine

variable {source before line after : Text} (h : source.IsLine before line after)
include h

theorem lineStarts_eq : lineStarts source
    = (0 :: breaksFrom 0 before) ++ breaksFrom (before.size + line.size) after := by
  have hline (offset : Nat) : breaksFrom offset line = [] :=
    List.eq_nil_of_length_eq_zero ((length_breaksFrom offset line).trans
      (List.count_eq_zero.2 h.notMem))
  rw [lineStarts, h.source_eq, breaksFrom_append, breaksFrom_append, hline, size_append,
    List.append_nil, Nat.zero_add]
  rfl

/-- **A line begins** at the byte that has as many others before it as line breaks. -/
theorem getElem?_lineStarts : (lineStarts source)[before.count '\n']? = some before.size := by
  have hlength : before.count '\n' < (0 :: breaksFrom 0 before).length := by
    rw [List.length_cons, length_breaksFrom]
    omega
  rw [h.lineStarts_eq, List.getElem?_append_left hlength]
  rcases h.before_eq with rfl | ⟨lines, rfl⟩
  · rfl
  · -- the last of the bytes is the one behind the last line break
    have hcount : (lines ++ ['\n']).count '\n' = (breaksFrom 0 lines).length + 1 := by
      rw [length_breaksFrom, List.count_append, List.count_singleton_self]
    have hlast : breaksFrom 0 (lines ++ ['\n']) = breaksFrom 0 lines ++ [lines.size + 1] := by
      rw [breaksFrom_append, Nat.zero_add]
      rfl
    rw [hcount, List.getElem?_cons_succ, hlast, List.getElem?_concat_length, size_append]
    rfl

/-- The next line begins behind the line break. -/
theorem getElem?_lineStarts_succ {lines : Text} (hafter : after = '\n' :: lines) :
    (lineStarts source)[before.count '\n' + 1]? = some (before.size + line.size + 1) := by
  have hlength : before.count '\n' + 1 = (0 :: breaksFrom 0 before).length := by
    rw [List.length_cons, length_breaksFrom]
  rw [h.lineStarts_eq, hafter, hlength, List.getElem?_append_right (Nat.le_refl _), Nat.sub_self]
  rfl

end IsLine

end Text

end Stencil
