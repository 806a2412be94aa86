import Stencil.Number.Digits
import Stencil.Text.Utf8

/-!
# Places in a source

A span says where a part of a source is: by lines and columns for people, and by bytes for programs.
Lines count from one, columns from zero and in characters, bytes from zero. Any two byte places make
a span (`Span.locate`): they are moved back to the end of the source and to the beginning of the
character they fall into, and a start beyond the end is moved back to it.

* `Span.stop_le_size`, `Span.start_le_stop` — so the bytes of a span always are a part of the
  source.
-/

namespace Stencil

/-- The **place of a part of a source**. -/
structure Span where
  startLine : Nat
  startCol : Nat
  endLine : Nat
  endCol : Nat
  /-- The first byte. -/
  start : Nat
  /-- The byte behind the last one. -/
  stop : Nat
  deriving DecidableEq, Repr

/-- The line of the place behind `before`, the source up to it. -/
def lineAfter (before : Text) : Nat :=
  before.count '\n' + 1

/-- The column of the place behind `before`: how many characters stand since the last line break. -/
def columnAfter (before : Text) : Nat :=
  (before.reverse.takeWhile (· ≠ '\n')).length

namespace Span

/-- The span of the bytes from `start` to `stop` of a source. -/
def locate (source : Text) (start stop : Nat) : Span :=
  let toEnd := source.takeBytes stop
  let toStart := source.takeBytes (min start toEnd.size)
  { startLine := lineAfter toStart
    startCol := columnAfter toStart
    endLine := lineAfter toEnd
    endCol := columnAfter toEnd
    start := toStart.size
    stop := toEnd.size }

theorem stop_le_size (source : Text) (start stop : Nat) :
    (locate source start stop).stop ≤ source.size := by
  have := congrArg Text.size (Text.takeBytes_append_dropBytes stop source)
  rw [Text.size_append] at this
  simp only [locate]
  omega

theorem start_le_stop (source : Text) (start stop : Nat) :
    (locate source start stop).start ≤ (locate source start stop).stop :=
  Nat.le_trans (Text.size_takeBytes_le ..) (Nat.min_le_right ..)

/-- The lines and columns of a part of a source are those behind the texts that end where it begins
and where it ends. -/
theorem locate_part (before part after : Text) :
    locate (before ++ part ++ after) before.size (before.size + part.size)
      = ⟨lineAfter before, columnAfter before, lineAfter (before ++ part),
          columnAfter (before ++ part), before.size, (before ++ part).size⟩ := by
  have hstop : (before ++ part ++ after).takeBytes (before.size + part.size) = before ++ part := by
    rw [← Text.size_append, Text.takeBytes_size_append]
  have hstart : (before ++ part ++ after).takeBytes before.size = before := by
    rw [List.append_assoc, Text.takeBytes_size_append]
  have hmin : min before.size (before ++ part).size = before.size := by
    rw [Text.size_append]
    omega
  simp only [locate, hstop, hmin, hstart]

/-- Bytes between which whole characters stand are not moved. -/
theorem locate_of_append (before part after : Text) :
    (locate (before ++ part ++ after) before.size (before.size + part.size)).start = before.size ∧
      (locate (before ++ part ++ after) before.size (before.size + part.size)).stop
        = before.size + part.size := by
  rw [locate_part, Text.size_append]
  exact ⟨rfl, rfl⟩

/-- A span as text, for people: where it begins and ends, by lines and columns. -/
def text (s : Span) : String :=
  s!" @ {s.startLine}:{s.startCol}-{s.endLine}:{s.endCol}"

/-- A span as text, for programmers: with its bytes. -/
def debugText (s : Span) : String :=
  s!"{s.text} ({s.start}..{s.stop})"

end Span

end Stencil
