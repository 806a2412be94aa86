import Mathlib.Data.Prod.Lex
import Mathlib.Order.Bounds.Defs
import Mathlib.Order.Monotone.Defs
import Stencil.Span

/-!
# Places between characters

A place in a source is counted in bytes, but it makes sense only between characters
(`Text.IsBoundary`). A beginning of the source is the text before such a place, so a place is known
by its line and column, which the text before it tells (`Text.place`):

* `Text.isGreatest_size_takeBytes` — moving a place back stops at the last boundary;
* `Text.byteAt?_takeBytes` — line and column lead back to the byte, by skipping line breaks and then
  characters;
* `Text.strictMonoOn_place` — a place that lies behind another has a later line, or a later column
  in the same line.

`Span.isExact_locate_and_strictMonoOn_place` says this of spans, whatever bytes they are made of.
-/

namespace Stencil

namespace Text

variable {source : Text} {m n : Nat}

/-! ### Boundaries -/

/-- Whether a byte place is a **boundary** of characters: only whole ones stand before it. -/
def IsBoundary (source : Text) (n : Nat) : Prop :=
  ∃ before after, source = before ++ after ∧ n = before.size

theorem IsBoundary.le_size (h : source.IsBoundary n) : n ≤ source.size := by
  obtain ⟨before, after, rfl, rfl⟩ := h
  rw [size_append]
  exact Nat.le_add_right ..

theorem isBoundary_size_takeBytes (source : Text) (n : Nat) :
    source.IsBoundary (source.takeBytes n).size :=
  ⟨_, source.dropBytes n, (takeBytes_append_dropBytes n source).symm, rfl⟩

/-- A boundary stays where it is. -/
theorem IsBoundary.size_takeBytes (h : source.IsBoundary n) : (source.takeBytes n).size = n := by
  obtain ⟨before, after, rfl, rfl⟩ := h
  rw [takeBytes_size_append]

theorem takeBytes_size_takeBytes (source : Text) (n : Nat) :
    source.takeBytes (source.takeBytes n).size = source.takeBytes n := by
  have h := takeBytes_size_append (source.takeBytes n) (source.dropBytes n)
  rwa [takeBytes_append_dropBytes] at h

/-- The text up to a place is a part of the text up to a later one. -/
theorem takeBytes_prefix_takeBytes (h : m ≤ n) (source : Text) :
    source.takeBytes m <+: source.takeBytes n := by
  induction source generalizing m n with
  | nil => exact List.prefix_rfl
  | cons c source ih =>
    rw [takeBytes, takeBytes]
    by_cases hm : c.utf8Size ≤ m
    · rw [if_pos hm, if_pos (Nat.le_trans hm h), List.prefix_cons_inj]
      exact ih (Nat.sub_le_sub_right h _)
    · rw [if_neg hm]
      exact List.nil_prefix

/-- **Moving a place back** stops at the last boundary that is not beyond it. -/
theorem isGreatest_size_takeBytes (source : Text) (n : Nat) :
    IsGreatest {m | source.IsBoundary m ∧ m ≤ n} (source.takeBytes n).size := by
  refine ⟨⟨isBoundary_size_takeBytes source n, size_takeBytes_le n source⟩, ?_⟩
  rintro m ⟨hboundary, hle⟩
  obtain ⟨more, hmore⟩ := takeBytes_prefix_takeBytes hle source
  calc m = (source.takeBytes m).size := hboundary.size_takeBytes.symm
    _ ≤ (source.takeBytes m ++ more).size := by rw [size_append]; exact Nat.le_add_right ..
    _ = (source.takeBytes n).size := by rw [hmore]

/-! ### Lines and columns -/

/-- The **line and the column** of a place, which are ordered by the line first. -/
def place (source : Text) (n : Nat) : Nat ×ₗ Nat :=
  toLex (lineAfter (source.takeBytes n), columnAfter (source.takeBytes n))

/-- Line breaks only add lines. -/
theorem lineAfter_append (before more : Text) :
    lineAfter (before ++ more) = lineAfter before + more.count '\n' := by
  rw [lineAfter, lineAfter, List.count_append, Nat.add_right_comm]

/-- Characters that are not line breaks only add columns. -/
theorem columnAfter_append_of_notMem {more : Text} (before : Text) (h : '\n' ∉ more) :
    columnAfter (before ++ more) = columnAfter before + more.length := by
  have hmore : ∀ c ∈ more.reverse, decide (c ≠ '\n') = true := by
    intro c hc
    exact decide_eq_true (ne_of_mem_of_not_mem (List.mem_reverse.1 hc) h)
  rw [columnAfter, columnAfter, List.reverse_append, List.takeWhile_append_of_pos hmore,
    List.length_append, List.length_reverse, Nat.add_comm]

/-- A line begins behind a line break. -/
theorem columnAfter_append_break (before : Text) : columnAfter (before ++ ['\n']) = 0 := by
  rw [columnAfter, List.reverse_append]
  rfl

/-- **A longer text** leads to a later line, or to a later column in the same one. -/
theorem place_lt_of_append {before more : Text} (h : more ≠ []) :
    toLex (lineAfter before, columnAfter before)
      < toLex (lineAfter (before ++ more), columnAfter (before ++ more)) := by
  rw [Prod.Lex.toLex_lt_toLex, lineAfter_append]
  by_cases hbreak : '\n' ∈ more
  · have hcount : 0 < more.count '\n' := List.count_pos_iff.2 hbreak
    exact .inl (Nat.lt_add_of_pos_right hcount)
  · have hcount : more.count '\n' = 0 := List.count_eq_zero.2 hbreak
    rw [columnAfter_append_of_notMem before hbreak, hcount]
    exact .inr ⟨rfl, Nat.lt_add_of_pos_right (List.length_pos_iff.2 h)⟩

/-- **Places are in the order** of their lines and columns. -/
theorem strictMonoOn_place (source : Text) :
    StrictMonoOn source.place {n | source.IsBoundary n} := by
  intro m hm n hn hlt
  obtain ⟨more, hmore⟩ := takeBytes_prefix_takeBytes hlt.le source
  -- the texts before two boundaries are different, as their sizes are
  have hne : more ≠ [] := by
    rintro rfl
    rw [List.append_nil] at hmore
    rw [← hm.size_takeBytes, ← hn.size_takeBytes, hmore] at hlt
    exact Nat.lt_irrefl _ hlt
  rw [place, place, ← hmore]
  exact place_lt_of_append hne

/-! ### From a line and a column to a byte -/

/-- What is left behind the first `n` line breaks; `none` if there are fewer. -/
def afterBreaks? : Nat → Text → Option Text
  | 0, t => some t
  | _ + 1, [] => none
  | n + 1, c :: t => if c = '\n' then afterBreaks? n t else afterBreaks? (n + 1) t

/-- What is left behind the first `n` characters; `none` if there are fewer in the line. -/
def afterColumns? : Nat → Text → Option Text
  | 0, t => some t
  | _ + 1, [] => none
  | n + 1, c :: t => if c = '\n' then none else afterColumns? n t

/-- The byte at a line and a column, if the source has them. Lines count from one. -/
def byteAt? (source : Text) (line column : Nat) : Option Nat :=
  match line with
  | 0 => none
  | breaks + 1 =>
    ((source.afterBreaks? breaks).bind (afterColumns? column)).map fun rest =>
      source.size - rest.size

/-- Line breaks are skipped one after the other. -/
theorem afterBreaks?_append (before rest : Text) (n : Nat) :
    afterBreaks? (before.count '\n' + (n + 1)) (before ++ rest) = afterBreaks? (n + 1) rest := by
  induction before with
  | nil => rw [List.count_nil, Nat.zero_add, List.nil_append]
  | cons c before ih =>
    by_cases hc : c = '\n'
    · rw [hc, List.count_cons_self, List.cons_append, Nat.add_right_comm, afterBreaks?, if_pos rfl]
      exact ih
    · rw [List.count_cons_of_ne hc, List.cons_append, ← Nat.add_assoc, afterBreaks?, if_neg hc]
      exact ih

theorem afterColumns?_append {line : Text} (h : '\n' ∉ line) (rest : Text) :
    afterColumns? line.length (line ++ rest) = some rest := by
  induction line with
  | nil => rfl
  | cons c line ih =>
    obtain ⟨hc, hline⟩ := List.ne_and_not_mem_of_not_mem_cons h
    rw [List.length_cons, List.cons_append, afterColumns?, if_neg (Ne.symm hc), ih hline]

/-- A text is one line, or it has a last line behind a line break. -/
theorem exists_last_line (t : Text) :
    '\n' ∉ t ∨ ∃ lines line, t = lines ++ ['\n'] ++ line ∧ '\n' ∉ line := by
  refine or_iff_not_imp_left.2 fun h => ?_
  obtain ⟨behind, ahead, hreverse, hline⟩ :=
    List.eq_append_cons_of_mem (List.mem_reverse.2 (not_not.1 h))
  refine ⟨ahead.reverse, behind.reverse, ?_, fun hmem => hline (List.mem_reverse.1 hmem)⟩
  rw [← List.reverse_reverse t, hreverse]
  simp

/-- **Line and column lead back** to the end of the text before them. -/
theorem byteAt?_append (before after : Text) :
    byteAt? (before ++ after) (lineAfter before) (columnAfter before) = some before.size := by
  have hsize : (before ++ after).size - after.size = before.size := by
    rw [size_append, Nat.add_sub_cancel]
  have hskip : ((before ++ after).afterBreaks? (before.count '\n')).bind
      (afterColumns? (columnAfter before)) = some after := by
    rcases exists_last_line before with hline | ⟨lines, line, rfl, hline⟩
    · -- on the first line there is nothing to skip but columns
      have hcolumn : columnAfter before = before.length := by
        have h := columnAfter_append_of_notMem [] hline
        rwa [List.nil_append, show columnAfter [] = 0 from rfl, Nat.zero_add] at h
      rw [List.count_eq_zero.2 hline, afterBreaks?, Option.bind_some, hcolumn,
        afterColumns?_append hline]
    · -- the lines before the last one are skipped together with the line break behind them
      have hcolumn : columnAfter (lines ++ ['\n'] ++ line) = line.length := by
        rw [columnAfter_append_of_notMem _ hline, columnAfter_append_break, Nat.zero_add]
      have hcount : (lines ++ ['\n'] ++ line).count '\n' = lines.count '\n' + (0 + 1) := by
        rw [List.count_append, List.count_append, List.count_eq_zero.2 hline]
        rfl
      have hrest : lines ++ ['\n'] ++ line ++ after = lines ++ '\n' :: (line ++ after) := by simp
      rw [hcount, hcolumn, hrest, afterBreaks?_append, afterBreaks?, if_pos rfl, afterBreaks?,
        Option.bind_some, afterColumns?_append hline]
  rw [lineAfter, byteAt?, hskip, Option.map_some, hsize]

/-- **The line and the column of a boundary** lead back to it. -/
theorem byteAt?_takeBytes (source : Text) (n : Nat) :
    source.byteAt? (lineAfter (source.takeBytes n)) (columnAfter (source.takeBytes n))
      = some (source.takeBytes n).size := by
  have h := byteAt?_append (source.takeBytes n) (source.dropBytes n)
  rwa [takeBytes_append_dropBytes] at h

end Text

/-! ### Spans -/

namespace Span

/-- Locating what a span says gives the span. -/
theorem locate_locate (source : Text) (start stop : Nat) :
    locate source (locate source start stop).start (locate source start stop).stop
      = locate source start stop := by
  have hle : (source.takeBytes (min start (source.takeBytes stop).size)).size
      ≤ (source.takeBytes stop).size := start_le_stop source start stop
  simp only [locate, Text.takeBytes_size_takeBytes, Nat.min_eq_left hle]

/-- Whether a span is the **exact place** of the bytes from `start` to `stop` of a source. -/
structure IsExact (source : Text) (start stop : Nat) (s : Span) : Prop where
  start_le_stop : s.start ≤ s.stop
  stop_le_size : s.stop ≤ source.size
  /-- The end is the last boundary that is not beyond `stop`, nor beyond the source. -/
  stop_isGreatest : IsGreatest {n | source.IsBoundary n ∧ n ≤ min stop source.size} s.stop
  /-- The beginning is the last boundary that is not beyond `start`, nor beyond the end. -/
  start_isGreatest : IsGreatest {n | source.IsBoundary n ∧ n ≤ min start s.stop} s.start
  byteAt?_start : source.byteAt? s.startLine s.startCol = some s.start
  byteAt?_stop : source.byteAt? s.endLine s.endCol = some s.stop
  place_start : source.place s.start = toLex (s.startLine, s.startCol)
  place_stop : source.place s.stop = toLex (s.endLine, s.endCol)
  /-- The span of its own bytes is the span itself. -/
  locate_eq : locate source s.start s.stop = s

/-- **Spans are exact**, whatever bytes they are made of, and the lines and columns in them rise
with the boundaries that they are the places of. -/
theorem isExact_locate_and_strictMonoOn_place (source : Text) (start stop : Nat) :
    IsExact source start stop (locate source start stop) ∧
      StrictMonoOn source.place {n | source.IsBoundary n} := by
  -- no boundary lies beyond the source, so it does not matter that the end is moved back to it
  have hclamp : {n | source.IsBoundary n ∧ n ≤ min stop source.size}
      = {n | source.IsBoundary n ∧ n ≤ stop} := by
    ext n
    constructor
    · rintro ⟨hn, hle⟩
      exact ⟨hn, hle.trans (Nat.min_le_left ..)⟩
    · rintro ⟨hn, hle⟩
      exact ⟨hn, Nat.le_min.2 ⟨hle, hn.le_size⟩⟩
  have hplace (n : Nat) : source.place (source.takeBytes n).size
      = toLex (lineAfter (source.takeBytes n), columnAfter (source.takeBytes n)) := by
    rw [Text.place, Text.takeBytes_size_takeBytes]
  refine ⟨?_, Text.strictMonoOn_place source⟩
  exact {
    start_le_stop := start_le_stop source start stop
    stop_le_size := stop_le_size source start stop
    stop_isGreatest := by
      rw [hclamp]
      exact Text.isGreatest_size_takeBytes source stop
    start_isGreatest := Text.isGreatest_size_takeBytes source _
    byteAt?_start := Text.byteAt?_takeBytes source _
    byteAt?_stop := Text.byteAt?_takeBytes source _
    place_start := hplace _
    place_stop := hplace _
    locate_eq := locate_locate source start stop }

-- The start falls into a character of two bytes, and the end lies beyond the source.
example : locate ['a', '\n', 'b', 'é'] 4 9 = ⟨2, 1, 2, 2, 3, 5⟩ := by
  decide

end Span

end Stencil
