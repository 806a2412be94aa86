import Stencil.Glob.Basic

/-!
# Matching glob patterns

A pattern is compared with a text from its last part to its first. What is kept between two parts is
which ends of the text the parts behind them stand for, as one mark for each end, so that each part
is looked at once for each end, however many stars there are.

* `on_allMarks` — the marks of a pattern are on the ends that begin with what it stands for, and go
  on with a marked end;
* `matches_iff` — so a pattern matches the paths that it describes.
-/

namespace Stencil

/-- **Marks** on the ends of a text: on the whole text, on the text without its first byte, and so
on, up to the empty end. -/
abbrev Marks := List Bool

/-- Whether `m` marks the ends of `s` that `L` holds for. -/
def Marks.On (L : List UInt8 → Prop) : List UInt8 → Marks → Prop
  | [], m => ∃ x, m = [x] ∧ (x = true ↔ L [])
  | b :: s, m => ∃ x rest, m = x :: rest ∧ (x = true ↔ L (b :: s)) ∧ Marks.On L s rest

namespace Marks

/-- The mark on the whole text. -/
def first (m : Marks) : Bool :=
  m.headD false

/-- The mark on the empty end alone. -/
def atEnd : List UInt8 → Marks
  | [] => [true]
  | _ :: s => false :: atEnd s

/-- No mark at all. -/
def none : List UInt8 → Marks
  | [] => [false]
  | _ :: s => false :: none s

/-- The ends that begin with a byte with `p`, and go on with a marked end. -/
def shift (p : UInt8 → Bool) : List UInt8 → Marks → Marks
  | [], _ => [false]
  | b :: s, m => (p b && first m.tail) :: shift p s m.tail

/-- The ends that begin with any number of bytes with `p`, and go on with a marked end. -/
def spread (p : UInt8 → Bool) : List UInt8 → Marks → Marks
  | [], m => [first m]
  | b :: s, m =>
    let rest := spread p s m.tail
    (first m || (p b && first rest)) :: rest

/-- The ends that are marked here or there. -/
def either (m n : Marks) : Marks :=
  List.zipWith or m n

theorem On.first {L : List UInt8 → Prop} {s : List UInt8} {m : Marks} (h : On L s m) :
    m.first = true ↔ L s := by
  cases s with
  | nil => obtain ⟨x, rfl, hx⟩ := h; exact hx
  | cons b s => obtain ⟨x, rest, rfl, hx, -⟩ := h; exact hx

theorem On.congr {L K : List UInt8 → Prop} {s : List UInt8} {m : Marks} (h : On L s m)
    (hLK : ∀ r, L r ↔ K r) : On K s m := by
  rwa [show K = L from funext fun r => propext (hLK r).symm]

theorem on_atEnd (s : List UInt8) : On (· = []) s (atEnd s) := by
  induction s with
  | nil => exact ⟨true, rfl, by simp⟩
  | cons b s ih => exact ⟨false, atEnd s, rfl, by simp, ih⟩

theorem on_none (s : List UInt8) : On (fun _ => False) s (none s) := by
  induction s with
  | nil => exact ⟨false, rfl, by simp⟩
  | cons b s ih => exact ⟨false, none s, rfl, by simp, ih⟩

theorem on_shift {L : List UInt8 → Prop} (p : UInt8 → Bool) {s : List UInt8} {m : Marks}
    (h : On L s m) : On (fun r => ∃ b y, r = b :: y ∧ p b ∧ L y) s (shift p s m) := by
  induction s generalizing m with
  | nil => exact ⟨false, rfl, by simp⟩
  | cons b s ih =>
    obtain ⟨x, rest, rfl, -, hrest⟩ := h
    refine ⟨_, _, rfl, ?_, ih hrest⟩
    simp only [List.tail_cons, Bool.and_eq_true, hrest.first]
    -- a mark comes from behind the byte that was taken
    constructor
    · exact fun h => ⟨b, s, rfl, h.1, h.2⟩
    · rintro ⟨c, y, hcy, hc, hL⟩
      obtain ⟨rfl, rfl⟩ := List.cons.inj hcy
      exact ⟨hc, hL⟩

theorem on_spread {L : List UInt8 → Prop} (p : UInt8 → Bool) {s : List UInt8} {m : Marks}
    (h : On L s m) :
    On (fun r => ∃ x y, r = x ++ y ∧ (∀ b ∈ x, p b) ∧ L y) s (spread p s m) := by
  induction s generalizing m with
  | nil =>
    refine ⟨_, rfl, ?_⟩
    rw [h.first]
    constructor
    · exact fun hL => ⟨[], [], rfl, by simp, hL⟩
    · rintro ⟨x, y, hxy, -, hL⟩
      obtain ⟨-, rfl⟩ := List.append_eq_nil_iff.1 hxy.symm
      exact hL
  | cons b s ih =>
    have hfirst := h.first
    obtain ⟨x, rest, rfl, -, hrest⟩ := h
    refine ⟨_, _, rfl, ?_, ih hrest⟩
    simp only [List.tail_cons, Bool.or_eq_true, Bool.and_eq_true, hfirst, (ih hrest).first]
    constructor
    · rintro (hL | ⟨hb, x, y, rfl, hx, hL⟩)
      -- the run may be empty, or begin with the first byte
      · exact ⟨[], b :: s, rfl, by simp, hL⟩
      · exact ⟨b :: x, y, rfl, by simpa [hb] using hx, hL⟩
    · rintro ⟨x, y, hxy, hx, hL⟩
      cases x with
      | nil => exact Or.inl (hxy ▸ hL)
      | cons c x =>
        obtain ⟨rfl, rfl⟩ := List.cons.inj hxy
        exact Or.inr ⟨hx b (by simp), x, y, rfl, fun c hc => hx c (by simp [hc]), hL⟩

theorem on_either {L K : List UInt8 → Prop} {s : List UInt8} {m n : Marks} (hm : On L s m)
    (hn : On K s n) : On (fun r => L r ∨ K r) s (either m n) := by
  induction s generalizing m n with
  | nil =>
    obtain ⟨x, rfl, hx⟩ := hm
    obtain ⟨y, rfl, hy⟩ := hn
    exact ⟨x || y, rfl, by simp [hx, hy]⟩
  | cons b s ih =>
    obtain ⟨x, m, rfl, hx, hm⟩ := hm
    obtain ⟨y, n, rfl, hy, hn⟩ := hn
    exact ⟨x || y, either m n, rfl, by simp [hx, hy], ih hm hn⟩

end Marks

namespace GlobToken

/-- The ends that begin with the bytes `x`, and go on with a marked end. -/
def literalMarks (s : List UInt8) (m : Marks) (x : List UInt8) : Marks :=
  x.foldr (fun b m => Marks.shift (· == b) s m) m

/-- The ends that begin with a slash, and go on with a marked end. -/
def slashMarks (s : List UInt8) (m : Marks) : Marks :=
  Marks.shift (· == slash) s m

mutual

/-- The ends of `s` that begin with what a part of a pattern stands for, and go on with a marked
end. -/
def marks (s : List UInt8) (m : Marks) : GlobToken → Marks
  | literal c => literalMarks s m (String.utf8EncodeChar c)
  | anyByte => Marks.shift (· != slash) s m
  | anyName => Marks.spread (· != slash) s m
  | leadingDirs => Marks.either m (Marks.spread (fun _ => true) s (slashMarks s m))
  | innerDirs =>
    slashMarks s (Marks.either m (Marks.spread (fun _ => true) s (slashMarks s m)))
  | everythingBelow => slashMarks s (Marks.spread (fun _ => true) s m)
  | oneOf negated ranges => Marks.shift (classHas negated ranges) s m
  | alternatives branches =>
    if branchesEmpty branches then m else someMarks s m branches

/-- The ends of `s` that begin with what one of the alternatives that are not empty stands for, and
go on with a marked end. -/
def someMarks (s : List UInt8) (m : Marks) : List (List GlobToken) → Marks
  | [] => Marks.none s
  | branch :: rest =>
    if areEmpty branch then someMarks s m rest
    else Marks.either (allMarks s m branch) (someMarks s m rest)

/-- The ends of `s` that begin with what the parts of a pattern, one after the other, stand for, and
go on with a marked end. -/
def allMarks (s : List UInt8) (m : Marks) : List GlobToken → Marks
  | [] => m
  | token :: rest => marks s (allMarks s m rest) token

end

/-! ### Why marks are right -/

/-- What begins with something that `K` holds for, and goes on with something that `L` holds for. -/
def Then (K L : List UInt8 → Prop) (r : List UInt8) : Prop :=
  ∃ x y, r = x ++ y ∧ K x ∧ L y

theorem on_literalMarks {L : List UInt8 → Prop} {s : List UInt8} {m : Marks} (h : Marks.On L s m)
    (x : List UInt8) : Marks.On (Then (· = x) L) s (literalMarks s m x) := by
  -- one shift for each byte, from the last one on
  induction x with
  | nil =>
    refine h.congr fun r => ⟨fun hL => ⟨[], r, rfl, rfl, hL⟩, ?_⟩
    rintro ⟨_, y, rfl, rfl, hL⟩
    exact hL
  | cons b x ih =>
    refine (Marks.on_shift (· == b) ih).congr fun r => ⟨?_, ?_⟩
    · rintro ⟨c, _, rfl, hc, z, y, rfl, hz, hL⟩
      exact ⟨b :: x, y, by simp [eq_of_beq hc, hz], rfl, hL⟩
    · rintro ⟨_, y, rfl, rfl, hL⟩
      exact ⟨b, x ++ y, rfl, by simp, x, y, rfl, rfl, hL⟩

theorem on_slashMarks {L : List UInt8 → Prop} {s : List UInt8} {m : Marks} (h : Marks.On L s m) :
    Marks.On (fun r => ∃ y, r = slash :: y ∧ L y) s (slashMarks s m) :=
  (Marks.on_shift (· == slash) h).congr fun r =>
    ⟨by rintro ⟨c, y, rfl, hc, hL⟩; exact ⟨y, by rw [eq_of_beq hc], hL⟩,
      by rintro ⟨y, rfl, hL⟩; exact ⟨slash, y, rfl, by simp, hL⟩⟩

/-- The ends that begin with nothing, or with something that ends in a slash. -/
theorem on_leadingMarks {L : List UInt8 → Prop} {s : List UInt8} {m : Marks} (h : Marks.On L s m) :
    Marks.On (Then (fun x => x = [] ∨ ∃ r, x = r ++ [slash]) L) s
      (Marks.either m (Marks.spread (fun _ => true) s (slashMarks s m))) := by
  refine (Marks.on_either h (Marks.on_spread (fun _ => true) (on_slashMarks h))).congr fun r =>
    ⟨?_, ?_⟩
  · rintro (hL | ⟨x, _, rfl, -, y, rfl, hL⟩)
    · exact ⟨[], r, rfl, Or.inl rfl, hL⟩
    · exact ⟨x ++ [slash], y, by simp, Or.inr ⟨x, rfl⟩, hL⟩
  · rintro ⟨_, y, rfl, rfl | ⟨x, rfl⟩, hL⟩
    · exact Or.inl hL
    · exact Or.inr ⟨x, slash :: y, by simp, by simp, y, rfl, hL⟩

theorem not_someAccept_of_branchesEmpty {branches : List (List GlobToken)}
    (h : branchesEmpty branches) (x : List UInt8) : ¬ SomeAccept branches x := by
  induction branches with
  | nil => simp [SomeAccept]
  | cons branch rest ih =>
    rw [branchesEmpty, Bool.and_eq_true] at h
    simp [SomeAccept, h.1, ih h.2]

mutual

theorem on_marks {L : List UInt8 → Prop} {s : List UInt8} {m : Marks} (h : Marks.On L s m) :
    (token : GlobToken) → Marks.On (Then (Accepts token) L) s (marks s m token)
  | literal c => by
    simpa only [Accepts, marks] using on_literalMarks h (String.utf8EncodeChar c)
  -- a token that takes one byte shifts the marks
  | anyByte => by
    rw [marks]
    refine (Marks.on_shift (· != slash) h).congr fun r => ⟨?_, ?_⟩
    · rintro ⟨b, y, rfl, hb, hL⟩
      exact ⟨[b], y, rfl, ⟨b, rfl, by simpa using hb⟩, hL⟩
    · rintro ⟨_, y, rfl, ⟨b, rfl, hb⟩, hL⟩
      exact ⟨b, y, rfl, by simpa using hb, hL⟩
  -- one that takes a run of bytes spreads them
  | anyName => by
    rw [marks]
    refine (Marks.on_spread (· != slash) h).congr fun r => ⟨?_, ?_⟩
    · rintro ⟨x, y, rfl, hx, hL⟩
      exact ⟨x, y, rfl, fun hs => by simpa using hx slash hs, hL⟩
    · rintro ⟨x, y, rfl, hx, hL⟩
      refine ⟨x, y, rfl, fun b hb => ?_, hL⟩
      simp only [bne_iff_ne, ne_eq]
      exact fun hbs => hx (hbs ▸ hb)
  | leadingDirs => by
    simpa only [Accepts, marks] using on_leadingMarks h
  | innerDirs => by
    rw [marks]
    refine (on_slashMarks (on_leadingMarks h)).congr fun r => ⟨?_, ?_⟩
    -- directories between two slashes: none, and then the two slashes are one, or some
    · rintro ⟨_, rfl, _, y, rfl, rfl | ⟨x, rfl⟩, hL⟩
      · exact ⟨[slash], y, rfl, Or.inl rfl, hL⟩
      · exact ⟨slash :: x ++ [slash], y, rfl, Or.inr ⟨x, rfl⟩, hL⟩
    · rintro ⟨_, y, rfl, rfl | ⟨x, rfl⟩, hL⟩
      · exact ⟨y, rfl, [], y, rfl, Or.inl rfl, hL⟩
      · exact ⟨x ++ [slash] ++ y, rfl, x ++ [slash], y, rfl, Or.inr ⟨x, rfl⟩, hL⟩
  | everythingBelow => by
    rw [marks]
    refine (on_slashMarks (Marks.on_spread (fun _ => true) h)).congr fun r => ⟨?_, ?_⟩
    · rintro ⟨_, rfl, x, y, rfl, -, hL⟩
      exact ⟨slash :: x, y, rfl, ⟨x, rfl⟩, hL⟩
    · rintro ⟨_, y, rfl, ⟨x, rfl⟩, hL⟩
      exact ⟨x ++ y, rfl, x, y, rfl, by simp, hL⟩
  | oneOf negated ranges => by
    rw [marks]
    refine (Marks.on_shift (classHas negated ranges) h).congr fun r => ⟨?_, ?_⟩
    · rintro ⟨b, y, rfl, hb, hL⟩
      exact ⟨[b], y, rfl, ⟨b, rfl, hb⟩, hL⟩
    · rintro ⟨_, y, rfl, ⟨b, rfl, hb⟩, hL⟩
      exact ⟨b, y, rfl, hb, hL⟩
  | alternatives branches => by
    rw [marks]
    split
    · next hempty =>
      -- branches that are all empty are left out of the pattern
      refine h.congr fun r => ⟨fun hL => ⟨[], r, rfl, Or.inr ⟨hempty, rfl⟩, hL⟩, ?_⟩
      rintro ⟨x, y, rfl, hx | ⟨-, rfl⟩, hL⟩
      · exact absurd hx (not_someAccept_of_branchesEmpty hempty x)
      · exact hL
    · next hempty =>
      refine (on_someMarks h branches).congr fun r => ⟨?_, ?_⟩
      · rintro ⟨x, y, rfl, hx, hL⟩
        exact ⟨x, y, rfl, Or.inl hx, hL⟩
      · rintro ⟨x, y, rfl, hx | ⟨hx, -⟩, hL⟩
        · exact ⟨x, y, rfl, hx, hL⟩
        · exact absurd hx hempty

theorem on_someMarks {L : List UInt8 → Prop} {s : List UInt8} {m : Marks} (h : Marks.On L s m) :
    (branches : List (List GlobToken)) →
      Marks.On (Then (SomeAccept branches) L) s (someMarks s m branches)
  | [] => by
    rw [someMarks]
    exact (Marks.on_none s).congr fun r => ⟨False.elim, by rintro ⟨x, y, rfl, hx, hL⟩; exact hx⟩
  | branch :: rest => by
    rw [someMarks]
    split
    · next hempty =>
      -- an empty branch accepts nothing where others are not empty
      refine (on_someMarks h rest).congr fun r => ⟨?_, ?_⟩
      · rintro ⟨x, y, rfl, hx, hL⟩
        exact ⟨x, y, rfl, Or.inr hx, hL⟩
      · rintro ⟨x, y, rfl, ⟨hx, -⟩ | hx, hL⟩
        · simp [hempty] at hx
        · exact ⟨x, y, rfl, hx, hL⟩
    · next hempty =>
      refine (Marks.on_either (on_allMarks h branch) (on_someMarks h rest)).congr fun r => ⟨?_, ?_⟩
      · rintro (⟨x, y, rfl, hx, hL⟩ | ⟨x, y, rfl, hx, hL⟩)
        · exact ⟨x, y, rfl, Or.inl ⟨by simpa using hempty, hx⟩, hL⟩
        · exact ⟨x, y, rfl, Or.inr hx, hL⟩
      · rintro ⟨x, y, rfl, ⟨-, hx⟩ | hx, hL⟩
        · exact Or.inl ⟨x, y, rfl, hx, hL⟩
        · exact Or.inr ⟨x, y, rfl, hx, hL⟩

theorem on_allMarks {L : List UInt8 → Prop} {s : List UInt8} {m : Marks} (h : Marks.On L s m) :
    (tokens : List GlobToken) → Marks.On (Then (AllAccept tokens) L) s (allMarks s m tokens)
  | [] => by
    rw [allMarks]
    refine h.congr fun r => ⟨fun hL => ⟨[], r, rfl, rfl, hL⟩, ?_⟩
    rintro ⟨x, y, rfl, hx, hL⟩
    obtain rfl : x = [] := hx
    exact hL
  | token :: rest => by
    rw [allMarks]
    -- the marks go from the last token to the first one
    refine (on_marks (on_allMarks h rest) token).congr fun r => ⟨?_, ?_⟩
    · rintro ⟨x, _, rfl, hx, y, z, rfl, hy, hL⟩
      exact ⟨x ++ y, z, by simp, ⟨x, y, rfl, hx, hy⟩, hL⟩
    · rintro ⟨_, z, rfl, ⟨x, y, rfl, hx, hy⟩, hL⟩
      exact ⟨x, y ++ z, by simp, hx, y, z, rfl, hy, hL⟩

end

end GlobToken

/-- Whether the pattern matches a relative path. -/
def GlobPattern.matches (p : GlobPattern) (path : Text) : Bool :=
  match p.tokens with
  | [.leadingDirs] => true
  | tokens => (GlobToken.allMarks path.bytes (Marks.atEnd path.bytes) tokens).first

theorem GlobPattern.matches_iff (p : GlobPattern) (path : Text) :
    p.matches path = true ↔ p.Describes path := by
  unfold GlobPattern.matches GlobPattern.Describes
  split
  · next h => simp [h]
  · next h =>
    -- the first mark stands for the whole path, with nothing behind it
    rw [(GlobToken.on_allMarks (Marks.on_atEnd path.bytes) p.tokens).first]
    constructor
    · rintro ⟨x, y, hxy, hx, rfl⟩
      exact Or.inr (by rwa [hxy, List.append_nil])
    · rintro (hp | hp)
      · exact absurd hp h
      · exact ⟨path.bytes, [], by simp, hp, rfl⟩

end Stencil
