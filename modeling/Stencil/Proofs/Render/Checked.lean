import Stencil.Span

/-!
# Operations that are checked

The library splits texts; a program that works on one source keeps places in it instead, in bytes.
Each of its operations then has a condition: a slice has to lie in the text, with its ends in order
and between characters; a difference must not go below zero; and a walk must not go backwards. Nor
does the program have to end. What becomes of it is a `Checked` result: a value, or the operation
that could not be carried out (`Mishap`), or nothing, if it has not ended when its fuel is used up;
each call and each round of a loop has one unit less than the one before.

The first such program is the one that finds the place of a diagnostic. It moves two bytes back to
the boundaries of characters, and cuts lines out of the source:

* `locateFrom_eq` — it ends without a mishap, for all sources and bytes, and gives the span
  `Span.locate`. The fuel has to exceed the size of the source.
-/

namespace Stencil

/-! ### Operations with a condition -/

/-- An **operation that cannot be carried out**. -/
inductive Mishap where
  /-- The slice from one byte to another is out of bounds or out of order, or cuts a character. -/
  | slice (start stop : Nat)
  /-- The second number is greater than the one that it is taken from. -/
  | difference (a b : Nat)
  /-- The place lies before the cursor. -/
  | backwards (cursor place : Nat)
  deriving DecidableEq, Repr

/-- What becomes of a program whose operations have conditions: a result or a mishap, if it ends. -/
abbrev Checked := ExceptT Mishap Option

/-- What becomes of a program that has not ended when its fuel is used up. -/
def Checked.unfinished {α : Type} : Checked α :=
  ExceptT.mk none

/-- The text around a byte place; `none` if that lies beyond the end or inside a character. -/
def Text.cutAtByte? : Nat → Text → Option (Text × Text)
  | 0, t => some ([], t)
  | _ + 1, [] => none
  | n + 1, c :: t =>
    if c.utf8Size ≤ n + 1 then
      (cutAtByte? (n + 1 - c.utf8Size) t).map fun cut => (c :: cut.1, cut.2)
    else none

theorem Text.cutAtByte?_size_append (a b : Text) :
    cutAtByte? (size a) (a ++ b) = some (a, b) := by
  induction a with
  | nil => rw [size_nil, cutAtByte?, List.nil_append]
  | cons c a ih =>
    obtain ⟨n, hn⟩ : ∃ n, c.utf8Size + size a = n + 1 := by
      have hpos := c.utf8Size_pos
      exact ⟨c.utf8Size + size a - 1, by omega⟩
    rw [size_cons, hn, List.cons_append, cutAtByte?, if_pos (by omega), ← hn,
      Nat.add_sub_cancel_left, ih]
    rfl

theorem Text.cutAtByte?_eq_some {n : Nat} {t a b : Text} (h : cutAtByte? n t = some (a, b)) :
    t = a ++ b ∧ size a = n := by
  induction t generalizing n a with
  | nil =>
    cases n with
    | zero =>
      cases h
      exact ⟨rfl, rfl⟩
    | succ n => cases h
  | cons c t ih =>
    cases n with
    | zero =>
      cases h
      exact ⟨rfl, rfl⟩
    | succ n =>
      rw [cutAtByte?] at h
      -- a cut inside of the first character is none
      split at h
      · obtain ⟨⟨a', b'⟩, hcut, heq⟩ := Option.map_eq_some_iff.1 h
        obtain ⟨rfl, rfl⟩ := Prod.mk.inj heq
        obtain ⟨rfl, hsize⟩ := ih hcut
        have hsize : c.utf8Size + size a' = n + 1 := by omega
        exact ⟨rfl, hsize⟩
      · cases h

namespace Checked

/-- Whether a program gives `r` with all fuel from some amount on: it ends, and without a mishap. -/
def EndsIn {α : Type} (run : Nat → Checked α) (r : α) : Prop :=
  ∃ enough, ∀ fuel, enough ≤ fuel → run fuel = pure r

/-- For finitely many programs that end there is one amount of fuel that is enough. -/
theorem exists_enough_of_forall_mem {α β : Type} {run : α → Nat → Checked β} {result : α → β}
    {l : List α} (h : ∀ x ∈ l, EndsIn (run x) (result x)) :
    ∃ enough, ∀ fuel, enough ≤ fuel → ∀ x ∈ l, run x fuel = pure (result x) := by
  induction l with
  | nil => exact ⟨0, fun _ _ x hx => absurd hx List.not_mem_nil⟩
  | cons y l ih =>
    obtain ⟨n, hn⟩ := h y List.mem_cons_self
    obtain ⟨m, hm⟩ := ih fun x hx => h x (List.mem_cons_of_mem _ hx)
    refine ⟨max n m, fun fuel hfuel x hx => ?_⟩
    rcases List.mem_cons.1 hx with rfl | hx
    · exact hn fuel (by omega)
    · exact hm fuel (by omega) x hx

/-- The bytes of a text from `start` to `stop`. -/
def slice (t : Text) (start stop : Nat) : Checked Text :=
  match (t.cutAtByte? stop).bind fun cut => cut.1.cutAtByte? start with
  | some cut => pure cut.2
  | none => throw (.slice start stop)

/-- The difference of two numbers. -/
def minus (a b : Nat) : Checked Nat :=
  if b ≤ a then pure (a - b) else throw (.difference a b)

/-- Moves the cursor of a walk over `t` on to a place, or to the end of the text before that. -/
def seek (t : Text) (cursor place : Nat) : Checked Nat :=
  if cursor ≤ place then pure (min place t.size) else throw (.backwards cursor place)

/-- A slice of a text is a part of it that lies where the slice says. -/
theorem slice_eq_pure {t : Text} (a b c : Text) {start stop : Nat} (ht : t = a ++ b ++ c)
    (hstart : start = a.size) (hstop : stop = a.size + b.size) : slice t start stop = pure b := by
  rw [slice, ht, hstop, ← Text.size_append, Text.cutAtByte?_size_append, Option.bind_some, hstart]
  simp only [Text.cutAtByte?_size_append]

theorem slice_behind (done t : Text) :
    slice (done ++ t) done.size (done ++ t).size = pure t :=
  slice_eq_pure done t [] (by simp) rfl (Text.size_append ..)

theorem minus_eq_pure {a b : Nat} (h : b ≤ a) : minus a b = pure (a - b) :=
  if_pos h

theorem seek_eq_pure {t : Text} {cursor place : Nat} (h : cursor ≤ place) (hsize : place ≤ t.size) :
    seek t cursor place = pure place := by
  rw [seek, if_pos h, Nat.min_eq_left hsize]

end Checked

/-! ### The place of a diagnostic -/

/-- The last place between characters of `source` that is not beyond `place`. -/
def boundaryFrom (source : Text) : Nat → Nat → Checked Nat
  | 0, _ => .unfinished
  | fuel + 1, place => do
    if (source.cutAtByte? place).isSome then return place
    else
      let before ← Checked.minus place 1
      boundaryFrom source fuel before

/-- The line and the column of a place. -/
def lineAndColumnFrom (source : Text) (place : Nat) : Checked (Nat × Nat) := do
  let before ← Checked.slice source 0 place
  let lineStart := ((Text.cutAtLast? (· = '\n') before).map fun cut => cut.1.size + 1).getD 0
  let line ← Checked.slice before lineStart before.size
  return (before.count '\n' + 1, line.length)

/-- The span of the bytes from `start` to `stop` of a source. -/
def locateFrom (fuel : Nat) (source : Text) (start stop : Nat) : Checked Span := do
  let stop ← boundaryFrom source fuel (min stop source.size)
  let start ← boundaryFrom source fuel (min start stop)
  let (startLine, startCol) ← lineAndColumnFrom source start
  let (endLine, endCol) ← lineAndColumnFrom source stop
  return ⟨startLine, startCol, endLine, endCol, start, stop⟩

/-- Between the last boundary and a place there is no other boundary to stop at. -/
theorem Text.takeBytes_eq_of_size_le {m n : Nat} {t : Text} (h : size (takeBytes n t) ≤ m)
    (hle : m ≤ n) : takeBytes m t = takeBytes n t := by
  induction t generalizing m n with
  | nil => rfl
  | cons c t ih =>
    by_cases hc : c.utf8Size ≤ n
    · rw [takeBytes, if_pos hc, size_cons] at h
      have hrest : takeBytes (m - c.utf8Size) t = takeBytes (n - c.utf8Size) t :=
        ih (by omega) (by omega)
      rw [takeBytes, takeBytes, if_pos hc, if_pos (by omega), hrest]
    · rw [takeBytes, takeBytes, if_neg hc, if_neg (by omega)]

theorem boundaryFrom_eq {source : Text} {fuel place : Nat} (hfuel : place < fuel) :
    boundaryFrom source fuel place = pure (source.takeBytes place).size := by
  induction place generalizing fuel with
  | zero =>
    obtain ⟨fuel, rfl⟩ : ∃ n, fuel = n + 1 := ⟨fuel - 1, by omega⟩
    rw [boundaryFrom, Text.cutAtByte?, Option.isSome_some, if_pos rfl]
    exact congrArg pure (Nat.le_zero.1 (Text.size_takeBytes_le 0 source)).symm
  | succ place ih =>
    obtain ⟨fuel, rfl⟩ : ∃ n, fuel = n + 1 := ⟨fuel - 1, by omega⟩
    rw [boundaryFrom]
    cases hcut : source.cutAtByte? (place + 1) with
    | some cut =>
      obtain ⟨hsource, hsize⟩ := Text.cutAtByte?_eq_some hcut
      rw [Option.isSome_some, if_pos rfl, hsource, ← hsize, Text.takeBytes_size_append]
    | none =>
      -- no boundary is here, so the text up to the last one is no longer than the place before
      have hsize : (source.takeBytes (place + 1)).size ≤ place := by
        have hle := Text.size_takeBytes_le (place + 1) source
        have hne : (source.takeBytes (place + 1)).size ≠ place + 1 := by
          intro heq
          have hsome := Text.cutAtByte?_size_append (source.takeBytes (place + 1))
            (source.dropBytes (place + 1))
          rw [Text.takeBytes_append_dropBytes, heq, hcut] at hsome
          cases hsome
        omega
      have hbefore := Text.takeBytes_eq_of_size_le hsize (Nat.le_succ place)
      rw [Option.isSome_none, if_neg Bool.false_ne_true,
        Checked.minus_eq_pure (Nat.le_add_left 1 _), pure_bind, Nat.add_sub_cancel,
        ih (by omega), hbefore]

/-- What stands before the first separator is what comes before any. -/
theorem Text.takeWhile_not_eq (sep : Char → Bool) (t : Text) :
    t.takeWhile (fun c => !sep c) = ((cutAt? sep t).map Prod.fst).getD t := by
  induction t with
  | nil => rfl
  | cons c t ih =>
    rw [cutAt?, List.takeWhile_cons, ih]
    cases sep c with
    | true => rfl
    | false =>
      cases cutAt? sep t with
      | none => rfl
      | some cut => rfl

theorem lineAndColumnFrom_eq (before after : Text) :
    lineAndColumnFrom (before ++ after) before.size
      = pure (lineAfter before, columnAfter before) := by
  have hbefore : Checked.slice (before ++ after) 0 before.size = pure before :=
    Checked.slice_eq_pure [] before after rfl rfl (Nat.zero_add _).symm
  have hcolumn : columnAfter before
      = (((Text.cutAt? (· = '\n') before.reverse).map Prod.fst).getD before.reverse).length := by
    rw [← Text.takeWhile_not_eq, columnAfter]
    simp
  rw [lineAndColumnFrom, hbefore, pure_bind, lineAfter, hcolumn]
  -- without a line feed, the line begins with the text
  cases hcut : Text.cutAt? (· = '\n') before.reverse with
  | none =>
    have hlast : Text.cutAtLast? (· = '\n') before = none := by rw [Text.cutAtLast?, hcut]; rfl
    have hline : Checked.slice before 0 before.size = pure before :=
      Checked.slice_eq_pure [] before [] (by simp) rfl (Nat.zero_add _).symm
    simp only [hlast, Option.map_none, Option.getD_none, hline, pure_bind, List.length_reverse]
  | some cut =>
    have hlast : Text.cutAtLast? (· = '\n') before = some (cut.2.reverse, cut.1.reverse) := by
      rw [Text.cutAtLast?, hcut]
      rfl
    obtain ⟨c, hc, hparts⟩ := Text.cutAtLast?_eq_some hlast
    obtain rfl : c = '\n' := of_decide_eq_true hc
    have hline : Checked.slice before (Text.size cut.2.reverse + 1) before.size
        = pure cut.1.reverse := by
      have hstart : Text.size cut.2.reverse + 1 = Text.size (cut.2.reverse ++ ['\n']) := by
        rw [Text.size_append]
        rfl
      refine Checked.slice_eq_pure (cut.2.reverse ++ ['\n']) cut.1.reverse [] ?_ hstart ?_
      · rw [hparts]
        simp
      · rw [← Text.size_append, hparts]
        simp
    simp only [hlast, Option.map_some, Option.getD_some, hline, pure_bind, List.length_reverse]

/-- **The place of a diagnostic** is where the library says. -/
theorem locateFrom_eq {fuel : Nat} {source : Text} (hfuel : source.size < fuel) (start stop : Nat) :
    locateFrom fuel source start stop = pure (Span.locate source start stop) := by
  have hplace (place : Nat) : lineAndColumnFrom source (source.takeBytes place).size
      = pure (lineAfter (source.takeBytes place), columnAfter (source.takeBytes place)) := by
    have heq := lineAndColumnFrom_eq (source.takeBytes place) (source.dropBytes place)
    rwa [Text.takeBytes_append_dropBytes] at heq
  have hwhole : (source.takeBytes stop).size ≤ source.size := Span.stop_le_size source start stop
  -- both places are clamped first: the end to the source, and the start to the end
  have hclamp : source.takeBytes (min stop source.size) = source.takeBytes stop := by
    have hstop := Text.size_takeBytes_le stop source
    exact Text.takeBytes_eq_of_size_le (by omega) (Nat.min_le_left ..)
  have hend : boundaryFrom source fuel (min stop source.size)
      = pure (source.takeBytes stop).size := by
    rw [boundaryFrom_eq (by omega), hclamp]
  have hstart : boundaryFrom source fuel (min start (source.takeBytes stop).size)
      = pure (source.takeBytes (min start (source.takeBytes stop).size)).size :=
    boundaryFrom_eq (by omega)
  simp only [locateFrom, hend, hstart, hplace, pure_bind, Span.locate]

end Stencil
