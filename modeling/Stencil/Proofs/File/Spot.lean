import Mathlib.Data.List.Induction
import Mathlib.Logic.Function.Iterate
import Stencil.File.Basic

/-!
# Where paths lead by their spelling

Going along the steps of a path, without looking at any files, ends at a spot: so many directories
up from where the path begins, and from there down some names (`FilePath.spot`). Two paths with one
spot lead to the same file wherever no link stands in between.

* `FilePath.bareSteps_join` — the steps of joined paths are those of one path and then of the other;
* `Spot.follow_eq_beneath` — following steps from a spot is the same as going to where the steps
  lead by themselves, seen from that spot;
* `FilePath.spot_join` — so the spot of joined paths is put together from theirs;
* `FilePath.spot_pathTo` — every list of names is that of a path.
-/

namespace Stencil

/-! ### Spots -/

/-- **Where a path leads** by its spelling. -/
structure Spot where
  /-- Whether the path begins at the topmost directory. -/
  absolute : Bool
  /-- How many directories it goes up from where it begins. -/
  ups : Nat
  /-- The names that it goes down from there. -/
  names : List Text
  deriving DecidableEq, Repr

namespace Spot

/-- Where a path begins that is not absolute. -/
def here : Spot := ⟨false, 0, []⟩

/-- The topmost directory. -/
def top : Spot := ⟨true, 0, []⟩

/-- The directory around. There is none around the topmost one, which is left as it is. -/
def up (s : Spot) : Spot :=
  if s.names = [] then
    if s.absolute then s else { s with ups := s.ups + 1 }
  else { s with names := s.names.dropLast }

/-- Some names further down. -/
def descend (s : Spot) (names : List Text) : Spot :=
  { s with names := s.names ++ names }

/-- One step further. -/
def step (s : Spot) : Step → Spot
  | .top => top
  | .stay => s
  | .up => s.up
  | .down name => s.descend [name]

/-- Some steps further. -/
def follow (s : Spot) (steps : List Step) : Spot :=
  steps.foldl step s

/-- The spot `t`, if its path begins at `s`. -/
def beneath (s t : Spot) : Spot :=
  (up^[t.ups] s).descend t.names

/-- Whether `s` **is, or lies in, the directory** `t`. -/
def Within (s t : Spot) : Prop :=
  s.absolute = t.absolute ∧
    (s.ups = t.ups ∧ t.names <+: s.names ∨ s.ups < t.ups ∧ t.names = [])

instance (s t : Spot) : Decidable (s.Within t) :=
  inferInstanceAs (Decidable (_ ∧ _))

/-- Whether one of two spots is, or lies in, the other. -/
def Overlaps (s t : Spot) : Prop :=
  s.Within t ∨ t.Within s

instance (s t : Spot) : Decidable (s.Overlaps t) :=
  inferInstanceAs (Decidable (_ ∨ _))

/-! ### Steps -/

@[simp] theorem follow_append (s : Spot) (a b : List Step) :
    s.follow (a ++ b) = (s.follow a).follow b :=
  List.foldl_append

@[simp] theorem descend_nil (s : Spot) : s.descend [] = s := by
  rw [descend, List.append_nil]

theorem descend_append (s : Spot) (a b : List Text) :
    s.descend (a ++ b) = (s.descend a).descend b := by
  rw [descend, descend, descend, List.append_assoc]

theorem up_descend (s : Spot) {names : List Text} (h : names ≠ []) :
    (s.descend names).up = s.descend names.dropLast := by
  have hne : s.names ++ names ≠ [] := fun hnil => h (List.append_eq_nil_iff.1 hnil).2
  rw [up, descend, if_neg hne, descend, List.dropLast_append_of_ne_nil h]

/-- Steps that do not begin at the top again leave the beginning of the path as it is. -/
theorem absolute_follow {steps : List Step} (h : .top ∉ steps) (s : Spot) :
    (s.follow steps).absolute = s.absolute := by
  induction steps generalizing s with
  | nil => rfl
  | cons x steps ih =>
    obtain ⟨hx, hsteps⟩ := List.ne_and_not_mem_of_not_mem_cons h
    change ((s.step x).follow steps).absolute = s.absolute
    rw [ih hsteps]
    cases x with
    | top => exact absurd rfl hx
    | stay => rfl
    -- at the top, going up changes nothing; elsewhere it is counted
    | up =>
      change s.up.absolute = s.absolute
      unfold up
      split
      · split <;> rfl
      · rfl
    | down name => rfl

/-- **Following steps from a spot** leads to where they lead by themselves, seen from the spot. -/
theorem follow_eq_beneath {steps : List Step} (h : .top ∉ steps) (s : Spot) :
    s.follow steps = s.beneath (here.follow steps) := by
  -- from behind, because it is the last step that changes where the steps before it lead
  induction steps using List.reverseRecOn with
  | nil => exact (descend_nil s).symm
  | append_singleton steps x ih =>
    have hsteps : .top ∉ steps := fun hmem => h (List.mem_append_left _ hmem)
    have habsolute : (here.follow steps).absolute = false := absolute_follow hsteps here
    rw [follow_append, follow_append, ih hsteps]
    generalize here.follow steps = t at habsolute ⊢
    change (s.beneath t).step x = s.beneath (t.step x)
    cases x with
    | top => exact absurd (List.mem_append_right _ (List.mem_singleton_self _)) h
    | stay => rfl
    | down name =>
      change ((up^[t.ups] s).descend t.names).descend [name]
        = (up^[t.ups] s).descend (t.names ++ [name])
      rw [descend_append]
    | up =>
      -- where no name is left to take off, `t` goes up further, and so does what is beneath `s`
      by_cases hnames : t.names = []
      · have hup : t.step .up = { t with ups := t.ups + 1 } := by
          change t.up = _
          rw [up, if_pos hnames, habsolute]
          rfl
        rw [hup]
        change ((up^[t.ups] s).descend t.names).up = (up^[t.ups + 1] s).descend t.names
        rw [hnames, descend_nil, descend_nil, Function.iterate_succ_apply']
      · have hup : t.step .up = { t with names := t.names.dropLast } := by
          change t.up = _
          rw [up, if_neg hnames]
        rw [hup]
        change ((up^[t.ups] s).descend t.names).up = (up^[t.ups] s).descend t.names.dropLast
        exact up_descend _ hnames

/-- Going up from an absolute spot takes names off its end, as long as there are any. -/
theorem up_iterate_of_absolute {s : Spot} (h : s.absolute = true) (n : Nat) :
    up^[n] s = { s with names := s.names.take (s.names.length - n) } := by
  induction n with
  | zero =>
    rw [Nat.sub_zero, List.take_length]
    rfl
  | succ n ih =>
    rw [Function.iterate_succ_apply', ih, up]
    by_cases hn : s.names.length ≤ n
    · -- the top has been reached, and is not left
      have hzero : s.names.length - n = 0 := by omega
      have hzero' : s.names.length - (n + 1) = 0 := by omega
      rw [hzero, hzero', List.take_zero, if_pos rfl, if_pos h]
    · have hne : s.names.take (s.names.length - n) ≠ [] := by
        rw [Ne, List.take_eq_nil_iff, not_or]
        refine ⟨by omega, fun hnil => ?_⟩
        rw [hnil, List.length_nil] at hn
        omega
      rw [if_neg hne, List.dropLast_eq_take, List.take_take, List.length_take]
      congr 2
      omega

/-- A step leads to no name but its own. -/
theorem mem_names_step {s : Spot} {x : Step} {name : Text} (h : name ∈ (s.step x).names) :
    name ∈ s.names ∨ x = .down name := by
  cases x with
  | top => cases h
  | stay => exact .inl h
  | down other =>
    rcases List.mem_append.1 h with h | h
    · exact .inl h
    · rw [List.mem_singleton.1 h]
      exact .inr rfl
  | up =>
    -- a step up takes a name away, or adds none
    change name ∈ s.up.names at h
    unfold up at h
    split at h
    · split at h
      · exact .inl h
      · exact .inl h
    · exact .inl (List.dropLast_subset _ h)

/-- From an absolute spot, no steps lead above the topmost directory. -/
theorem ups_follow_of_absolute {s : Spot} (habsolute : s.absolute = true) (hups : s.ups = 0)
    (steps : List Step) : (s.follow steps).absolute = true ∧ (s.follow steps).ups = 0 := by
  induction steps generalizing s with
  | nil => exact ⟨habsolute, hups⟩
  | cons x steps ih =>
    change ((s.step x).follow steps).absolute = true ∧ ((s.step x).follow steps).ups = 0
    cases x with
    | top => exact ih rfl rfl
    | stay => exact ih habsolute hups
    | down name => exact ih habsolute hups
    | up =>
      -- nothing lies above the root
      have hup : s.up.absolute = true ∧ s.up.ups = 0 := by
        unfold up
        split
        · exact ⟨habsolute, hups⟩
        · exact ⟨habsolute, hups⟩
      exact ih hup.1 hup.2

/-- Steps down lead down. -/
theorem follow_map_down (s : Spot) (names : List Text) :
    s.follow (names.map .down) = s.descend names := by
  induction names generalizing s with
  | nil => exact (descend_nil s).symm
  | cons name names ih =>
    change (s.descend [name]).follow (names.map .down) = s.descend ([name] ++ names)
    rw [ih, descend_append]

end Spot

/-! ### Steps of paths -/

namespace FilePath

/-- The steps of pieces of a path that lead anywhere. -/
def bareStepsOf (pieces : List Text) : List Step :=
  (pieces.map stepOf).filter (· ≠ .stay)

theorem bareStepsOf_append (a b : List Text) :
    bareStepsOf (a ++ b) = bareStepsOf a ++ bareStepsOf b := by
  rw [bareStepsOf, List.map_append, List.filter_append]
  rfl

theorem bareSteps_eq (p : FilePath) :
    p.bareSteps = (if p.isAbsolute then [.top] else []) ++ bareStepsOf (p.pieces '/') := by
  unfold bareSteps steps
  split
  · rfl
  · rfl

theorem stepOf_ne_top (piece : Text) : stepOf piece ≠ .top := by
  unfold stepOf
  split
  · exact nofun
  · split <;> exact nofun

theorem top_notMem_bareStepsOf (pieces : List Text) : .top ∉ bareStepsOf pieces := by
  intro h
  obtain ⟨piece, -, hpiece⟩ := List.mem_map.1 (List.mem_filter.1 h).1
  exact stepOf_ne_top piece hpiece

theorem bareSteps_of_relative {p : FilePath} (h : p.isAbsolute = false) :
    p.bareSteps = bareStepsOf (p.pieces '/') := by
  rw [bareSteps_eq, h]
  rfl

theorem isAbsolute_append {p : FilePath} (h : p ≠ []) (q : FilePath) :
    FilePath.isAbsolute (p ++ q) = p.isAbsolute := by
  cases p with
  | nil => exact absurd rfl h
  | cons c p => rfl

theorem join_of_absolute {p q : FilePath} (h : q.isAbsolute = true) : p.join q = q := by
  rw [join, if_pos h]

/-- Joining leaves the beginning of a path as it is. -/
theorem isAbsolute_join {p q : FilePath} (h : q.isAbsolute = false) :
    (p.join q).isAbsolute = p.isAbsolute := by
  rw [join, h, if_neg Bool.false_ne_true]
  by_cases hp : p = []
  · subst hp
    exact h
  · split
    · exact isAbsolute_append hp q
    · exact isAbsolute_append hp _

/-- **The steps of joined paths** are those of the one and then those of the other. -/
theorem bareSteps_join {p q : FilePath} (h : q.isAbsolute = false) :
    (p.join q).bareSteps = p.bareSteps ++ q.bareSteps := by
  have hpieces : bareStepsOf ((p.join q).pieces '/')
      = bareStepsOf (p.pieces '/') ++ bareStepsOf (q.pieces '/') := by
    rw [join, h, if_neg Bool.false_ne_true]
    split
    · next hp =>
      rcases Bool.or_eq_true_iff.1 hp with hp | hp
      · rw [List.isEmpty_iff.1 hp]
        rfl
      · -- the empty piece behind the last slash leads nowhere
        obtain ⟨outer, rfl⟩ := List.getLast?_eq_some_iff.1 (of_decide_eq_true hp)
        rw [List.append_assoc, List.singleton_append, Text.pieces_append_cons,
          Text.pieces_append_cons, bareStepsOf_append, bareStepsOf_append]
        congr 1
        exact (List.append_nil _).symm
    · rw [Text.pieces_append_cons, bareStepsOf_append]
  rw [bareSteps_eq (p.join q), isAbsolute_join h, hpieces, bareSteps_of_relative h, bareSteps_eq,
    List.append_assoc]

/-! ### Spots of paths -/

/-- Where a path leads by its spelling. -/
def spot (p : FilePath) : Spot :=
  Spot.here.follow p.bareSteps

theorem spot_of_absolute {p : FilePath} (h : p.isAbsolute = true) :
    p.spot = Spot.top.follow (bareStepsOf (p.pieces '/')) := by
  rw [spot, bareSteps_eq, h, if_pos rfl]
  rfl

theorem absolute_spot (p : FilePath) : p.spot.absolute = p.isAbsolute := by
  cases h : p.isAbsolute with
  | true =>
    rw [spot_of_absolute h]
    exact Spot.absolute_follow (top_notMem_bareStepsOf _) _
  | false =>
    rw [spot, bareSteps_of_relative h]
    exact Spot.absolute_follow (top_notMem_bareStepsOf _) _

/-- **The spot of joined paths**, put together from theirs. -/
theorem spot_join {p q : FilePath} (h : q.isAbsolute = false) :
    (p.join q).spot = p.spot.beneath q.spot := by
  rw [spot, bareSteps_join h, Spot.follow_append, spot, spot, bareSteps_of_relative h]
  exact Spot.follow_eq_beneath (top_notMem_bareStepsOf _) _

theorem ups_spot_of_absolute {p : FilePath} (h : p.isAbsolute = true) : p.spot.ups = 0 := by
  rw [spot_of_absolute h]
  exact (Spot.ups_follow_of_absolute rfl rfl _).2

/-- Whether a path never goes up. -/
def IsStraight (p : FilePath) : Prop :=
  .up ∉ p.bareSteps

instance (p : FilePath) : Decidable p.IsStraight :=
  inferInstanceAs (Decidable (_ ∉ _))

/-- Steps of which each leads down to a name lead down some names. -/
theorem exists_names_of_forall_down {steps : List Step}
    (h : ∀ x ∈ steps, ∃ name, x = .down name) : ∃ names : List Text, steps = names.map .down := by
  induction steps with
  | nil => exact ⟨[], rfl⟩
  | cons x steps ih =>
    obtain ⟨name, rfl⟩ := h x List.mem_cons_self
    obtain ⟨names, rfl⟩ := ih fun y hy => h y (List.mem_cons_of_mem _ hy)
    exact ⟨name :: names, rfl⟩

/-- The steps of a straight path are those down the names of its spot. -/
theorem IsStraight.bareSteps_eq {p : FilePath} (h : p.IsStraight) :
    p.bareSteps = (if p.isAbsolute then [.top] else []) ++ p.spot.names.map .down ∧
      p.spot.ups = 0 := by
  have hup : .up ∉ bareStepsOf (p.pieces '/') := by
    rw [IsStraight, FilePath.bareSteps_eq] at h
    exact fun hmem => h (List.mem_append_right _ hmem)
  -- of the four kinds of steps, only those down are left
  obtain ⟨names, hnames⟩ : ∃ names : List Text, bareStepsOf (p.pieces '/') = names.map .down := by
    refine exists_names_of_forall_down fun x hx => ?_
    cases x with
    | top => exact absurd hx (top_notMem_bareStepsOf _)
    | stay => exact absurd rfl (of_decide_eq_true (List.mem_filter.1 hx).2)
    | up => exact absurd hx hup
    | down name => exact ⟨name, rfl⟩
  have hspot : p.spot = (if p.isAbsolute then Spot.top else Spot.here).descend names := by
    cases habs : p.isAbsolute with
    | true =>
      rw [spot_of_absolute habs, hnames, Spot.follow_map_down]
      rfl
    | false =>
      rw [spot, bareSteps_of_relative habs, hnames, Spot.follow_map_down]
      rfl
  rw [FilePath.bareSteps_eq, hnames, hspot]
  split
  · exact ⟨rfl, rfl⟩
  · exact ⟨rfl, rfl⟩

/-- A name leads down to what has that name. -/
theorem bareSteps_of_isName {name : Text} (h : Node.IsName name) :
    FilePath.bareSteps name = [.down name] := by
  obtain ⟨hnil, hdot, hdots, hslash⟩ := h
  -- a name has no slash, so it begins with none
  have hrelative : FilePath.isAbsolute name = false := by
    cases name with
    | nil => rfl
    | cons c name =>
      refine decide_eq_false fun hhead => hslash ?_
      rw [← Option.some.inj hhead]
      exact List.mem_cons_self
  rw [bareSteps_of_relative hrelative, Text.pieces_of_notMem hslash, bareStepsOf,
    List.map_singleton, stepOf, if_neg (not_or.2 ⟨hnil, hdot⟩), if_neg hdots]
  rfl

theorem isAbsolute_of_isName {name : Text} (h : Node.IsName name) :
    FilePath.isAbsolute name = false := by
  cases habs : FilePath.isAbsolute name with
  | false => rfl
  | true =>
    have hsteps := bareSteps_of_isName h
    rw [bareSteps_eq, habs, if_pos rfl] at hsteps
    cases hsteps

theorem spot_joinNames {names : List Text} (h : ∀ name ∈ names, Node.IsName name) (p : FilePath) :
    (p.joinNames names).spot = p.spot.descend names := by
  induction names generalizing p with
  | nil => exact (Spot.descend_nil _).symm
  | cons name names ih =>
    have hname := h name List.mem_cons_self
    have hstep : (p.join name).spot = p.spot.descend [name] := by
      rw [spot_join (isAbsolute_of_isName hname), spot.eq_1 name, bareSteps_of_isName hname]
      rfl
    change ((p.join name).joinNames names).spot = _
    rw [ih (fun x hx => h x (List.mem_cons_of_mem _ hx)), hstep, ← Spot.descend_append]
    rfl

/-- The steps down of a path go to names. -/
theorem isName_of_down_mem_steps {p : FilePath} {name : Text} (h : .down name ∈ p.steps) :
    Node.IsName name := by
  have hmem : .down name ∈ (p.pieces '/').map stepOf := by
    unfold steps at h
    split at h
    · exact (List.mem_cons.1 h).resolve_left nofun
    · exact h
  obtain ⟨piece, hpiece, hstep⟩ := List.mem_map.1 hmem
  -- empty pieces and dots make other steps, and no piece has a slash
  unfold stepOf at hstep
  split at hstep
  · cases hstep
  · next hstay =>
    split at hstep
    · cases hstep
    · next hup =>
      obtain rfl := Step.down.inj hstep
      obtain ⟨hnil, hdot⟩ := not_or.1 hstay
      exact ⟨hnil, hdot, hup, Text.notMem_of_mem_pieces hpiece⟩

/-- The names of a spot come from the path. -/
theorem isName_of_mem_spot {p : FilePath} {name : Text} (h : name ∈ p.spot.names) :
    Node.IsName name := by
  -- a name that one ends at was there before, or some step went down to it
  have further (steps : List Step) (s : Spot) (hmem : name ∈ (s.follow steps).names) :
      name ∈ s.names ∨ .down name ∈ steps := by
    induction steps generalizing s with
    | nil => exact .inl hmem
    | cons x steps ih =>
      rcases ih (s.step x) hmem with hmem | hmem
      · rcases Spot.mem_names_step hmem with hmem | rfl
        · exact .inl hmem
        · exact .inr List.mem_cons_self
      · exact .inr (List.mem_cons_of_mem _ hmem)
  rcases further p.bareSteps Spot.here h with hmem | hmem
  · cases hmem
  · exact isName_of_down_mem_steps (List.mem_filter.1 hmem).1

/-- Every list of names is that of a path. -/
theorem spot_pathTo {names : List Text} (h : ∀ name ∈ names, Node.IsName name) :
    (FileSystem.pathTo names).spot = ⟨true, 0, names⟩ := by
  rw [FileSystem.pathTo, spot_joinNames h]
  rfl

end FilePath

end Stencil
