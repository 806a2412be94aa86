import Stencil.Text.Basic

/-!
# File paths

A path is text, as people and programs write it: names with slashes between them. Nothing is tidied
up when paths are joined, because messages show a path as it was put together. What a path means is
the list of its steps (`FilePath.steps`): to the top, nowhere, up, or down to a name.

* `FilePath.length_parent?_lt` — going to the parent again and again comes to an end;
* `FilePath.templateName` — how a template is named after its file.
-/

namespace Stencil

/-- A **file path**. -/
abbrev FilePath := Text

/-- One step on the way that a path describes. -/
inductive Step where
  /-- To the topmost directory. -/
  | top
  /-- Nowhere, but only a directory can be left that way. -/
  | stay
  /-- To the directory around. -/
  | up
  /-- To the entry of that name. -/
  | down (name : Text)
  deriving DecidableEq, Repr

namespace FilePath

/-- Whether a path begins at the topmost directory. -/
def isAbsolute (p : FilePath) : Bool :=
  p.head? = some '/'

/-- The path to `q`, seen from the directory `p`. -/
def join (p q : FilePath) : FilePath :=
  if q.isAbsolute then q
  else if p.isEmpty || p.getLast? = some '/' then p ++ q
  else p ++ '/' :: q

/-- The path to the file or directory that one gets to from `p` by going down the names. -/
def joinNames (p : FilePath) (names : List Text) : FilePath :=
  names.foldl join p

/-! ### Steps -/

/-- The step that a piece of a path between slashes stands for. -/
def stepOf (piece : Text) : Step :=
  if piece = [] ∨ piece = ['.'] then .stay
  else if piece = ['.', '.'] then .up
  else .down piece

/-- The steps of a path. -/
def steps (p : FilePath) : List Step :=
  let steps := (p.pieces '/').map stepOf
  if p.isAbsolute then .top :: steps else steps

/-- The steps of a path that lead anywhere: two paths with the same ones are spellings of each
other. -/
def bareSteps (p : FilePath) : List Step :=
  p.steps.filter (· ≠ .stay)

/-! ### Parents -/

/-- Pieces of a path, the last one first, from the last one that names something; the first piece of
a path is always kept. -/
def dropVoid : List Text → List Text
  | [] => []
  | [piece] => [piece]
  | piece :: next :: rest =>
    if piece = [] ∨ piece = ['.'] then dropVoid (next :: rest) else piece :: next :: rest

/-- The path without its last piece that names something; `none` if there is no such piece. -/
def parent? (p : FilePath) : Option FilePath :=
  match dropVoid (p.pieces '/').reverse with
  | [] => none
  | [piece] => if piece = [] then none else some []
  | _ :: next :: rest =>
    match dropVoid (next :: rest) with
    | [[]] => some ['/']
    | outer => some (Text.unpieces '/' outer.reverse)

/-- The number of characters in some pieces and of the separators behind them. -/
def piecesLength : List Text → Nat
  | [] => 0
  | piece :: rest => piece.length + 1 + piecesLength rest

@[simp] theorem piecesLength_cons (piece : Text) (rest : List Text) :
    piecesLength (piece :: rest) = piece.length + 1 + piecesLength rest := rfl

theorem piecesLength_append (a b : List Text) :
    piecesLength (a ++ b) = piecesLength a + piecesLength b := by
  induction a with
  | nil => simp [piecesLength]
  | cons piece rest ih => simp [ih, Nat.add_assoc]

theorem length_unpieces {pieces : List Text} (h : pieces ≠ []) :
    (Text.unpieces '/' pieces).length + 1 = piecesLength pieces := by
  induction pieces with
  | nil => exact absurd rfl h
  | cons piece rest ih =>
    cases rest with
    | nil => simp [Text.unpieces, piecesLength]
    | cons next rest =>
      have := ih (by simp)
      simp only [Text.unpieces, List.length_append, List.length_cons, piecesLength_cons] at *
      omega

theorem piecesLength_reverse (pieces : List Text) :
    piecesLength pieces.reverse = piecesLength pieces := by
  induction pieces with
  | nil => rfl
  | cons piece rest ih =>
    rw [List.reverse_cons, piecesLength_append, ih, piecesLength_cons, piecesLength_cons,
      Nat.add_comm]
    rfl

theorem piecesLength_dropVoid_le (pieces : List Text) :
    piecesLength (dropVoid pieces) ≤ piecesLength pieces := by
  induction pieces with
  | nil => simp [dropVoid]
  | cons piece rest ih =>
    cases rest with
    | nil => simp [dropVoid]
    | cons next rest =>
      rw [dropVoid]
      split
      · rw [piecesLength_cons]
        omega
      · exact Nat.le_refl _

theorem dropVoid_ne_nil {pieces : List Text} (h : pieces ≠ []) : dropVoid pieces ≠ [] := by
  induction pieces with
  | nil => exact absurd rfl h
  | cons piece rest ih =>
    cases rest with
    | nil => simp [dropVoid]
    | cons next rest =>
      rw [dropVoid]
      split
      · exact ih (by simp)
      · simp

/-- A piece in front of others is kept only if it names something. -/
theorem not_void_of_dropVoid {pieces rest : List Text} {piece next : Text}
    (h : dropVoid pieces = piece :: next :: rest) : ¬ (piece = [] ∨ piece = ['.']) := by
  induction pieces with
  | nil => simp [dropVoid] at h
  | cons first others ih =>
    cases others with
    | nil => simp [dropVoid] at h
    | cons second others =>
      rw [dropVoid] at h
      -- a void piece is dropped, and what is kept begins further on
      split at h
      · exact ih h
      · next hfirst =>
        obtain ⟨rfl, -⟩ := List.cons.inj h
        exact hfirst

/-- A parent has fewer characters. -/
theorem length_parent?_lt {p q : FilePath} (h : p.parent? = some q) : q.length < p.length := by
  -- a text is as long as its pieces, with a separator between any two
  have hp : p.length + 1 = piecesLength (p.pieces '/').reverse := by
    rw [piecesLength_reverse, ← length_unpieces (Text.pieces_ne_nil '/' p), Text.unpieces_pieces]
  have hle := piecesLength_dropVoid_le (p.pieces '/').reverse
  unfold parent? at h
  split at h
  · cases h
  · next piece hrev =>
    rw [hrev] at hle
    split at h
    · cases h
    · next hne =>
      obtain rfl := Option.some.inj h
      have := List.length_pos_iff.2 hne
      simp only [piecesLength_cons, List.length_nil] at *
      omega
  · next piece next rest hrev =>
    -- the last piece is gone, and all that is void in front of it
    have hpiece := List.length_pos_iff.2 (not_or.1 (not_void_of_dropVoid hrev)).1
    rw [hrev] at hle
    simp only [piecesLength_cons] at hle
    have hrest := piecesLength_dropVoid_le (next :: rest)
    rw [piecesLength_cons] at hrest
    split at h
    · obtain rfl := Option.some.inj h
      simp only [List.length_cons, List.length_nil]
      omega
    · obtain rfl := Option.some.inj h
      have hne : (dropVoid (next :: rest)).reverse ≠ [] := by
        simpa using dropVoid_ne_nil (by simp)
      have := length_unpieces hne
      rw [piecesLength_reverse] at this
      omega

/-! ### Names of files -/

/-- The text before and after the last point of a file name, if there is a point that is not in
front. -/
def cutExtension? (name : Text) : Option (Text × Text) :=
  (Text.cutAtLast? (· = '.') name).filter fun cut => !cut.1.isEmpty

/-- A file name without its extension. A name that begins with its only point has none. -/
def stem (name : Text) : Text :=
  ((cutExtension? name).map (·.1)).getD name

/-- The name of a template that is read from a file: its path with slashes between the names,
without the extension of the file. -/
def templateName (p : FilePath) : Text :=
  let p := p.map fun c => if c = '\\' then '/' else c
  match Text.cutAtLast? (· = '/') p with
  | some (directory, name) => directory ++ '/' :: stem name
  | none => stem p

end FilePath

end Stencil
