import Stencil.Proofs.Render.Checked
import Stencil.Proofs.Render.Diagnostics
import Stencil.Proofs.Text.Boundaries
import Stencil.Proofs.Text.Lines
import Stencil.Proofs.Text.Trimming

/-!
# What reports underline

A report shows a line of the source and underlines a part of it. Where the line is, comes from the
number in the span; the library takes the piece of that number. A program that keeps places in bytes
looks up the byte at which the line begins instead, and cuts the line out of the source. Each of its
steps has a condition, and all are met, whatever numbers there are in the span
(`Diagnostic.locationFrom?_eq`).

The numbers in the span of a diagnostic come from counting line breaks and characters before the
tag. Both ways lead to the same line, and the carets stand under the tag, as far as it goes on that
line:

* `Diagnostic.line_eq_of_isLine` — which line is shown;
* `Diagnostic.showsNearestLine` — what holds of all reports;
* `Diagnostic.IsLocated.underlines` — what holds if the span was located at a tag;
* `Diagnostic.showsNearestLine_and_underlines` — so every diagnostic of a render underlines its tag.
-/

namespace Stencil

/-! ### A program for the line and what stands under it -/

/-- What a program gives; `none` if it does not end, or ends with a mishap. -/
def Checked.result? {α : Type} (x : Checked α) : Option α :=
  x.run.bind Except.toOption

theorem Checked.result?_pure {α : Type} (a : α) : (pure a : Checked α).result? = some a :=
  rfl

/-- A number moved between two bounds, if these are in order. -/
def clamp? (n lower upper : Nat) : Option Nat :=
  if lower ≤ upper then some (min (max n lower) upper) else none

/-- The byte at which the line of that number ends, with its line break: where the next line begins,
or the source ends. -/
def Text.lineStop? (source : Text) (number : Nat) : Option Nat :=
  if number = source.lineStarts.length then some source.size else source.lineStarts[number]?

/-- How many characters of a line are underlined for a span. -/
def Span.width? (s : Span) (line : Text) : Option Nat :=
  if s.endLine = s.startLine ∧ s.startCol < s.endCol then
    (Checked.minus s.endCol s.startCol).result?
  else some (max (line.length - s.startCol) 1)

/-- What stands under some text: blanks, and tabs under tabs. -/
def Text.blanksUnder (t : Text) : Text :=
  t.map fun c => if c = '\t' then '\t' else ' '

namespace Diagnostic

/-- The number of the line that a report shows, the line, and what stands under it, by the bytes at
which the lines of the source begin; `none` if a step cannot be carried out. -/
def locationFrom? (d : Diagnostic) : Option (Nat × Text × Text) := do
  let starts := d.source.lineStarts
  let number ← clamp? d.span.startLine 1 starts.length
  let index ← (Checked.minus number 1).result?
  let start ← starts[index]?
  let stop ← d.source.lineStop? number
  let whole ← (Checked.slice d.source start stop).result?
  let line := Text.trimRight (· = '\r') (Text.trimRight (· = '\n') whole)
  let width ← d.span.width? line
  return (number, line,
    Text.blanksUnder (line.take d.span.startCol) ++ List.replicate width '^')

end Diagnostic

/-- **A line can be cut out**: the last one ends with the source, and the others where the next one
begins. -/
theorem Text.IsLine.exists_slice {source before line after : Text}
    (h : source.IsLine before line after) :
    ∃ stop whole, source.lineStop? (before.count '\n' + 1) = some stop ∧
      Checked.slice source before.size stop = pure whole ∧ trimRight (· = '\n') whole = line := by
  have hlineEnd : ∀ c, line.getLast? = some c → decide (c = '\n') = false := fun c hc =>
    decide_eq_false (ne_of_mem_of_not_mem (List.mem_of_getLast? hc) h.notMem)
  have hlast : before.count '\n' + 1 = source.lineStarts.length ↔ after = [] := by
    rw [length_lineStarts, Nat.add_right_cancel_iff, h.count_eq_iff]
  -- the last line is the only one that does not end with a line feed
  rcases h.after_eq with rfl | ⟨lines, rfl⟩
  · refine ⟨_, line, if_pos (hlast.2 rfl), ?_, ?_⟩
    · refine Checked.slice_eq_pure before line [] h.source_eq rfl ?_
      rw [h.source_eq, size_append, size_append, size_nil, Nat.add_zero]
    · have htrim := trimRight_append hlineEnd (List.forall_mem_nil _)
      rwa [List.append_nil] at htrim
  · refine ⟨before.size + line.size + 1, line ++ ['\n'], ?_, ?_, ?_⟩
    · rw [lineStop?, if_neg fun heq => List.cons_ne_nil _ _ (hlast.1 heq),
        h.getElem?_lineStarts_succ rfl]
    · refine Checked.slice_eq_pure before (line ++ ['\n']) lines ?_ rfl ?_
      · rw [h.source_eq]
        simp
      · rw [size_append, ← Nat.add_assoc]
        rfl
    · exact trimRight_append hlineEnd (List.forall_mem_singleton.2 rfl)

/-! ### The line that is shown -/

namespace Diagnostic

variable {d : Diagnostic} {before head lexeme line after : Text}

/-- **The line that is shown** is the one whose number the span says, or the nearest to that. -/
theorem line_eq_of_isLine (h : d.source.IsLine before line after)
    (hnumber : min (max d.span.startLine 1) (d.source.count '\n' + 1) = before.count '\n' + 1) :
    d.line = (before.count '\n' + 1, Text.trimRight (· = '\r') line) := by
  rw [← Text.length_pieces] at hnumber
  simp only [Diagnostic.line, hnumber, Nat.add_sub_cancel, List.getD_eq_getElem?_getD,
    h.getElem?_pieces, Option.getD_some]

/-- There is such a line, whatever the span says. -/
theorem exists_isLine (d : Diagnostic) : ∃ before line after, d.source.IsLine before line after ∧
    min (max d.span.startLine 1) (d.source.count '\n' + 1) = before.count '\n' + 1 := by
  obtain ⟨before, line, after, hline, hcount⟩ := Text.exists_isLine
    (show min (max d.span.startLine 1) (d.source.count '\n' + 1) - 1 ≤ d.source.count '\n' by omega)
  exact ⟨before, line, after, hline, by omega⟩

/-- A width is taken without going below zero. -/
theorem width?_eq (d : Diagnostic) : d.span.width? d.line.2 = some d.underlineWidth := by
  rw [underlineWidth, Span.width?]
  split
  · next h => rw [Checked.minus_eq_pure (Nat.le_of_lt h.2), Checked.result?_pure]
  · rfl

theorem one_le_underlineWidth (d : Diagnostic) : 1 ≤ d.underlineWidth := by
  rw [underlineWidth]
  split <;> omega

/-- **No step fails**, for all sources and spans, and what comes out is what the library says. -/
theorem locationFrom?_eq (d : Diagnostic) :
    d.locationFrom? = some (d.line.1, d.line.2, d.underline) := by
  obtain ⟨before, line, after, hline, hnumber⟩ := d.exists_isLine
  have hshown := line_eq_of_isLine hline hnumber
  -- the number is clamped to the lines there are, so the line can be looked up
  have hclamp : clamp? d.span.startLine 1 d.source.lineStarts.length
      = some (before.count '\n' + 1) := by
    rw [clamp?, Text.length_lineStarts, if_pos (Nat.le_add_left 1 _), hnumber]
  have hindex : Checked.minus (before.count '\n' + 1) 1 = pure (before.count '\n') :=
    Checked.minus_eq_pure (Nat.le_add_left 1 _)
  obtain ⟨stop, whole, hstop, hslice, htrim⟩ := hline.exists_slice
  have hwidth := d.width?_eq
  rw [hshown] at hwidth
  simp only [locationFrom?, hclamp, hindex, hline.getElem?_lineStarts, hstop, hslice, htrim, hwidth,
    Checked.result?_pure, Option.bind_eq_bind, Option.bind_some, Option.pure_def, underline, hshown]
  rfl

/-! ### All reports -/

/-- **The underline stands under the line**, behind as many blanks as the number has digits. -/
theorem exists_report_eq (d : Diagnostic) : ∃ top : Text, d.report.toList
    = top ++ '\n' :: (decimal d.line.1 ++ " | ".toList ++ d.line.2) ++
      '\n' :: (List.replicate (decimal d.line.1).length ' ' ++ " | ".toList ++ d.underline) := by
  -- the last two of the five lines
  have hlast (a b c x y : String) : ("\n".intercalate [a, b, c, x, y]).toList
      = ("\n".intercalate [a, b, c]).toList ++ '\n' :: x.toList ++ '\n' :: y.toList := by
    change (a ++ "\n" ++ b ++ "\n" ++ c ++ "\n" ++ x ++ "\n" ++ y).toList
      = (a ++ "\n" ++ b ++ "\n" ++ c).toList ++ _ ++ _
    simp
  have hrow (a b : Text) : (s!"{String.ofList a} | {String.ofList b}").toList
      = a ++ " | ".toList ++ b := by
    simp [toString]
  rw [report, hlast, hrow, hrow, String.length_ofList]
  exact ⟨_, rfl⟩

/-- Whether a report **shows the line nearest** to what the span says, and points at it. -/
structure ShowsNearestLine (d : Diagnostic) : Prop where
  /-- No step fails that is taken to find the line. -/
  location : d.locationFrom? = some (d.line.1, d.line.2, d.underline)
  number : d.line.1 = min (max d.span.startLine 1) (d.source.count '\n' + 1)
  /-- It is the line of that number, but for carriage returns at its end. -/
  isLine : ∃ before returns after, d.source.IsLine before (d.line.2 ++ returns) after ∧
    d.line.1 = before.count '\n' + 1 ∧ ∀ c ∈ returns, c = '\r'
  getLast?_ne : d.line.2.getLast? ≠ some '\r'
  /-- There are carets, behind blanks. -/
  carets : ∃ width, 1 ≤ width ∧ d.underline
    = Text.blanksUnder (d.line.2.take d.span.startCol) ++ List.replicate width '^'
  /-- They stand under the line. -/
  report : ∃ top : Text, d.report.toList
    = top ++ '\n' :: (decimal d.line.1 ++ " | ".toList ++ d.line.2) ++
      '\n' :: (List.replicate (decimal d.line.1).length ' ' ++ " | ".toList ++ d.underline)

/-- **Whatever the source and the span are**, the report shows the nearest line. -/
theorem showsNearestLine (d : Diagnostic) : d.ShowsNearestLine := by
  obtain ⟨before, line, after, hline, hnumber⟩ := d.exists_isLine
  have hshown := line_eq_of_isLine hline hnumber
  obtain ⟨returns, hreturns, hall, hlast⟩ := Text.exists_eq_trimRight_append (· = '\r') line
  exact {
    location := d.locationFrom?_eq
    number := by rw [hshown, hnumber]
    isLine := by
      rw [hshown]
      refine ⟨before, returns, after, ?_, rfl, fun c hc => of_decide_eq_true (hall c hc)⟩
      rwa [← hreturns]
    getLast?_ne := by
      rw [hshown]
      exact fun heq => absurd (hlast '\r' heq) (by decide)
    carets := ⟨d.underlineWidth, d.one_le_underlineWidth, rfl⟩
    report := d.exists_report_eq }

/-! ### Reports of tags -/

/-- Whether a report **underlines a tag** whose text is `lexeme`. It stands behind `head` on its
line, and all the lines before that are `before`. -/
structure Underlines (d : Diagnostic) (before head lexeme after : Text) : Prop where
  source_eq : d.source = before ++ head ++ lexeme ++ after
  start_eq : d.span.start = (before ++ head).size
  stop_eq : d.span.stop = (before ++ head ++ lexeme).size
  number : d.line.1 = before.count '\n' + 1
  /-- The line that is shown is that of the tag, and what is underlined is the part of the tag on
  it: the whole tag, or all up to the end of the line if the tag goes on behind that. -/
  exists_part : ∃ part rest returns behind,
    d.source.IsLine before (head ++ part ++ rest ++ returns) behind ∧
      d.line.2 = head ++ part ++ rest ∧ (∀ c ∈ returns, c = '\r') ∧
      d.underline = Text.blanksUnder head ++ List.replicate part.length '^' ∧ part ≠ [] ∧
      (part = lexeme ∨ rest = [] ∧ ∃ more, lexeme = part ++ returns ++ '\n' :: more)

/-- Whether the span of a diagnostic **was located** at a tag, whose text is `lexeme`. -/
structure IsLocated (d : Diagnostic) (before head lexeme after : Text) : Prop where
  source_eq : d.source = before ++ head ++ lexeme ++ after
  span_eq : d.span = .locate d.source (before ++ head).size ((before ++ head).size + lexeme.size)
  before_eq : before = [] ∨ ∃ lines, before = lines ++ ['\n']
  notMem : '\n' ∉ head
  /-- A tag begins and ends in brackets, so in nothing that is trimmed off a line. -/
  head?_eq : lexeme.head? = some '\x7b'
  getLast?_eq : lexeme.getLast? = some '\x7d'

/-- A diagnostic that points at a tag was located there, and the tag stands on some line. -/
theorem exists_isLocated {tag : Tag} (hspan : d.span = .locate d.source d.span.start d.span.stop)
    (htag : TagAt d.source tag d.span.start d.span.stop) :
    ∃ before head lexeme after, Tag.lex? (lexeme ++ after) = some ⟨tag, lexeme, after⟩ ∧
      d.IsLocated before head lexeme after := by
  obtain ⟨ahead, lexeme, after, hsource, hstart, hstop, hlex⟩ := htag
  obtain ⟨before, head, rfl, hhead, hbefore⟩ : ∃ before head, ahead = before ++ head ∧
      '\n' ∉ head ∧ (before = [] ∨ ∃ lines, before = lines ++ ['\n']) := by
    -- the line begins behind the last line feed in front of the tag
    rcases Text.exists_last_line ahead with hhead | ⟨lines, head, rfl, hhead⟩
    · exact ⟨[], ahead, rfl, hhead, .inl rfl⟩
    · exact ⟨_, head, rfl, hhead, .inr ⟨lines, rfl⟩⟩
  obtain ⟨inner, -, -, -, hlexeme⟩ := Tag.lex?_cons_cons hlex
  have hlexeme : lexeme = '\x7b' :: '\x7b' :: inner ++ ['\x7d', '\x7d'] := hlexeme
  refine ⟨before, head, lexeme, after, hlex, hsource, ?_, hbefore, hhead, ?_, ?_⟩
  · rwa [hstart, hstop] at hspan
  · rw [hlexeme]
    rfl
  · rw [hlexeme, List.getLast?_append]
    rfl

namespace IsLocated

section

variable (h : d.IsLocated before head lexeme after)
include h

theorem locate_eq : d.span = ⟨lineAfter (before ++ head), columnAfter (before ++ head),
    lineAfter (before ++ head ++ lexeme), columnAfter (before ++ head ++ lexeme),
    (before ++ head).size, (before ++ head ++ lexeme).size⟩ := by
  rw [h.span_eq, h.source_eq]
  exact Span.locate_part (before ++ head) lexeme after

/-- A tag begins on the line behind all lines before it, and behind the characters there. -/
theorem place_eq : lineAfter (before ++ head) = before.count '\n' + 1 ∧
    columnAfter (before ++ head) = head.length := by
  have hcolumn : columnAfter before = 0 := by
    rcases h.before_eq with rfl | ⟨lines, rfl⟩
    · rfl
    · exact Text.columnAfter_append_break lines
  rw [Text.columnAfter_append_of_notMem before h.notMem, hcolumn, Text.lineAfter_append,
    List.count_eq_zero.2 h.notMem, Nat.zero_add]
  exact ⟨rfl, rfl⟩

theorem startLine_eq : d.span.startLine = before.count '\n' + 1 := by
  rw [h.locate_eq]
  exact h.place_eq.1

theorem startCol_eq : d.span.startCol = head.length := by
  rw [h.locate_eq]
  exact h.place_eq.2

/-- **The line of a tag is shown**, up to the carriage returns at its end. -/
theorem line_eq {shown returns behind : Text}
    (hsplit : lexeme ++ after = shown ++ returns ++ behind) (hshown : '\n' ∉ shown)
    (hreturns : ∀ c ∈ returns, c = '\r') (hbehind : behind = [] ∨ ∃ lines, behind = '\n' :: lines)
    (hlast : ∃ c, shown.getLast? = some c ∧ c ≠ '\r') :
    d.source.IsLine before (head ++ shown ++ returns) behind ∧
      d.line = (before.count '\n' + 1, head ++ shown) := by
  have hline : d.source.IsLine before (head ++ shown ++ returns) behind := by
    refine ⟨?_, fun hmem => ?_, h.before_eq, hbehind⟩
    · rw [h.source_eq, List.append_assoc, hsplit]
      simp only [List.append_assoc]
    · rcases List.mem_append.1 hmem with hmem | hmem
      · exact (List.mem_append.1 hmem).elim h.notMem hshown
      · exact absurd (hreturns _ hmem) (by decide)
  refine ⟨hline, ?_⟩
  have hnumber : min (max d.span.startLine 1) (d.source.count '\n' + 1)
      = before.count '\n' + 1 := by
    have hle := hline.count_le
    rw [h.startLine_eq]
    omega
  obtain ⟨c, hlast, hc⟩ := hlast
  -- what is shown ends with no carriage return, so just those behind it are cut off
  have htrim : Text.trimRight (· = '\r') (head ++ shown ++ returns) = head ++ shown := by
    refine Text.trimRight_append (fun e he => ?_) fun e he => decide_eq_true (hreturns e he)
    rw [List.getLast?_append, hlast] at he
    obtain rfl : c = e := Option.some.inj he
    exact decide_eq_false hc
  rw [line_eq_of_isLine hline hnumber, htrim]

/-- A tag is underlined as far as it goes on the line, if so many characters are. -/
theorem underlines_of_split {part rest returns behind : Text}
    (hsplit : lexeme ++ after = part ++ rest ++ returns ++ behind) (hshown : '\n' ∉ part ++ rest)
    (hreturns : ∀ c ∈ returns, c = '\r') (hbehind : behind = [] ∨ ∃ lines, behind = '\n' :: lines)
    (hlast : ∃ c, (part ++ rest).getLast? = some c ∧ c ≠ '\r')
    (hwidth : d.line.2 = head ++ part ++ rest → d.underlineWidth = part.length) (hne : part ≠ [])
    (hpart : part = lexeme ∨ rest = [] ∧ ∃ more, lexeme = part ++ returns ++ '\n' :: more) :
    d.Underlines before head lexeme after := by
  obtain ⟨hisLine, hline⟩ := h.line_eq hsplit hshown hreturns hbehind hlast
  rw [← List.append_assoc] at hisLine hline
  have htext : d.line.2 = head ++ part ++ rest := by rw [hline]
  refine ⟨h.source_eq, ?_, ?_, by rw [hline], part, rest, returns, behind, hisLine, htext, hreturns,
    ?_, hne, hpart⟩
  · rw [h.locate_eq]
  · rw [h.locate_eq]
  · rw [underline, hwidth htext, htext, h.startCol_eq, List.append_assoc, List.take_left]
    rfl

/-- **A tag on one line** is underlined as a whole. -/
theorem underlines_of_notMem (hbreak : '\n' ∉ lexeme) : d.Underlines before head lexeme after := by
  have hne : lexeme ≠ [] := List.ne_nil_of_mem (List.mem_of_getLast? h.getLast?_eq)
  obtain ⟨line, behind, rfl, hline, hbehind⟩ := Text.exists_first_line after
  obtain ⟨returns, hreturns, hall, hrest⟩ := Text.exists_eq_trimRight_append (· = '\r') line
  generalize Text.trimRight (· = '\r') line = rest at hreturns hrest
  subst hreturns
  have hmem : '\n' ∉ lexeme ++ rest := fun hmem =>
    (List.mem_append.1 hmem).elim hbreak fun hmem => hline (List.mem_append_left _ hmem)
  -- the line goes on behind the tag, or it ends in the brackets
  have hlast : ∃ c, (lexeme ++ rest).getLast? = some c ∧ c ≠ '\r' := by
    rw [List.getLast?_append, h.getLast?_eq]
    cases hc : rest.getLast? with
    | none => exact ⟨_, rfl, by decide⟩
    | some c => exact ⟨c, rfl, of_decide_eq_false (hrest c hc)⟩
  have hwidth : d.underlineWidth = lexeme.length := by
    have hlength := List.length_pos_iff.2 hne
    have hendLine : d.span.endLine = d.span.startLine := by
      rw [h.locate_eq]
      exact (Text.lineAfter_append _ _).trans (by rw [List.count_eq_zero.2 hbreak]; rfl)
    have hendCol : d.span.endCol = d.span.startCol + lexeme.length := by
      rw [h.locate_eq]
      exact Text.columnAfter_append_of_notMem _ hbreak
    rw [underlineWidth, if_pos ⟨hendLine, by omega⟩, hendCol, Nat.add_sub_cancel_left]
  exact h.underlines_of_split (by simp only [List.append_assoc]) hmem
    (fun c hc => of_decide_eq_true (hall c hc)) hbehind hlast (fun _ => hwidth) hne (.inl rfl)

/-- **A tag that goes on behind its line** is underlined up to the end of that. -/
theorem underlines_of_mem (hbreak : '\n' ∈ lexeme) : d.Underlines before head lexeme after := by
  obtain ⟨line, more, hlexeme, hline⟩ := List.eq_append_cons_of_mem hbreak
  obtain ⟨returns, hreturns, hall, hpart⟩ := Text.exists_eq_trimRight_append (· = '\r') line
  generalize Text.trimRight (· = '\r') line = part at hreturns hpart
  subst hreturns
  have hall : ∀ c ∈ returns, c = '\r' := fun c hc => of_decide_eq_true (hall c hc)
  -- the brackets with which the tag begins are not trimmed away
  have hne : part ≠ [] := by
    rintro rfl
    have hhead := h.head?_eq
    rw [hlexeme, List.nil_append] at hhead
    cases returns with
    | nil => exact absurd (Option.some.inj hhead) (by decide)
    | cons c returns =>
      obtain rfl : c = '\x7b' := Option.some.inj hhead
      exact absurd (hall _ List.mem_cons_self) (by decide)
  have hmem : '\n' ∉ part ++ [] := by
    rw [List.append_nil]
    exact fun hmem => hline (List.mem_append_left _ hmem)
  have hlast : ∃ c, (part ++ []).getLast? = some c ∧ c ≠ '\r' := by
    rw [List.append_nil]
    exact ⟨_, List.getLast?_eq_some_getLast hne,
      of_decide_eq_false (hpart _ (List.getLast?_eq_some_getLast hne))⟩
  have hwidth (htext : d.line.2 = head ++ part ++ []) : d.underlineWidth = part.length := by
    have hlength := List.length_pos_iff.2 hne
    have hendLine : d.span.endLine ≠ d.span.startLine := by
      have hcount := List.count_pos_iff.2 hbreak
      have hend : lineAfter (before ++ head ++ lexeme) ≠ lineAfter (before ++ head) := by
        rw [Text.lineAfter_append]
        omega
      rw [h.locate_eq]
      exact hend
    rw [underlineWidth, if_neg fun hand => hendLine hand.1, htext, h.startCol_eq, List.append_nil,
      List.length_append]
    omega
  have hsplit : lexeme ++ after = part ++ [] ++ returns ++ '\n' :: (more ++ after) := by
    rw [hlexeme]
    simp
  exact h.underlines_of_split hsplit hmem hall (.inr ⟨_, rfl⟩) hlast hwidth hne
    (.inr ⟨rfl, more, hlexeme⟩)

/-- **A tag is underlined** as far as it goes on its first line. -/
theorem underlines : d.Underlines before head lexeme after := by
  by_cases hbreak : '\n' ∈ lexeme
  · exact h.underlines_of_mem hbreak
  · exact h.underlines_of_notMem hbreak

end

end IsLocated

/-- **Every diagnostic of a render** underlines the tag that it is about. Whatever a diagnostic says
about its source, its report shows the nearest line. -/
theorem showsNearestLine_and_underlines :
    (∀ d : Diagnostic, d.ShowsNearestLine) ∧
      ∀ (partials : Registry) (template : Template) (scope : Scope),
        ∀ d ∈ (renderTemplate partials template scope).diagnostics,
          ∃ tag before head lexeme after, Tag.lex? (lexeme ++ after) = some ⟨tag, lexeme, after⟩ ∧
            d.fault.IsAbout partials tag ∧ d.Underlines before head lexeme after := by
  refine ⟨showsNearestLine, fun partials template scope d hd => ?_⟩
  -- at any depth of partials, the diagnostic points at a tag of the source that it names
  change d ∈ (includedAt partials (inclusionBound partials scope + 1) template scope).diagnostics
    at hd
  obtain ⟨t, -, hpoints⟩ := pointsInto_of_mem_includedAt hd
  obtain ⟨tag, htag, hfault⟩ := hpoints.exists_tag
  have hspan := hpoints.span_eq
  rw [← hpoints.source_eq] at htag hspan
  obtain ⟨before, head, lexeme, after, hlex, hlocated⟩ := exists_isLocated hspan htag
  exact ⟨tag, before, head, lexeme, after, hlex, hfault, hlocated.underlines⟩

/-- The missing cell stands on the second line of the row, and is underlined as a whole. -/
theorem underlines_missingCell :
    missingCell ∈ (renderTemplate engineOfRow.partials pageOfRow (.root ∅ ∅)).diagnostics ∧
      missingCell.locationFrom?
        = some (2, "\x7b\x7b> cell\x7d\x7d".toList, "^^^^^^^^^^".toList) ∧
      missingCell.ShowsNearestLine ∧
      ∃ tag before head lexeme after, Tag.lex? (lexeme ++ after) = some ⟨tag, lexeme, after⟩ ∧
        missingCell.fault.IsAbout engineOfRow.partials tag ∧
        missingCell.Underlines before head lexeme after :=
  ⟨missingCell_mem, rfl, showsNearestLine_and_underlines.1 missingCell,
    showsNearestLine_and_underlines.2 _ _ _ _ missingCell_mem⟩

/-- A tag behind a tab that goes on behind its line. -/
example : (Diagnostic.mk (.unclosedBlock .cond) "page".toList
    (.locate "a\n\t\x7b\x7b#if\r\n b\x7d\x7d".toList 3 14)
    "a\n\t\x7b\x7b#if\r\n b\x7d\x7d".toList).locationFrom?
      = some (2, "\t\x7b\x7b#if".toList, "\t^^^^^".toList) := by
  decide

end Diagnostic

end Stencil
