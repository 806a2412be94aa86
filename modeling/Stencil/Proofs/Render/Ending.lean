import Mathlib.Data.List.Perm.Subperm
import Mathlib.Order.Lattice.Nat
import Stencil.Engine.Output
import Stencil.Proofs.Render.Calls
import Stencil.Proofs.Render.Rounds

/-!
# Renders that end

A partial may include itself, and then a render of it may never end. The renderer is bounded in how
deep partials nest, and leaves a partial out where it meets that bound; here a render that meets it
has no result (`Call.result?`). Without the bound such a render would go on for ever:

* `Call.result_of_result?` — a result is what the renderer gives;
* `Call.result?_deeper` — a result stays the same when more depth is allowed for;
* `Call.ends_iff_forall` — a call ends if all partials do which its section comes to include;
* `renderTemplate?_eq_some_iff` — so a render has a result if there is any depth at all that is
  enough for it. The least such depth goes down along inclusions, and it is decided by the partial
  and by what the names of its scope stand for; of these pairs there are no more than the bound
  (`BoundsSteps.length_of_kinds`);
* `exists_renderTemplate?_of_acyclicFrom` — it has one if no cycle of inclusions can be reached.
-/

/-- All elements of a list have an image if and only if the list has one. -/
theorem List.isSome_mapM_iff {α β : Type} {f : α → Option β} {xs : List α} :
    (xs.mapM f).isSome = true ↔ ∀ x ∈ xs, (f x).isSome = true := by
  induction xs with
  | nil => simp
  | cons x xs ih =>
    rw [List.mapM_cons, List.forall_mem_cons, ← ih]
    cases f x with
    | none => simp
    | some y => cases xs.mapM f <;> simp

theorem List.mapM_eq_some_iff {α β : Type} {f : α → Option β} {xs : List α} {ys : List β} :
    xs.mapM f = some ys ↔ List.Forall₂ (fun x y => f x = some y) xs ys := by
  induction xs generalizing ys with
  | nil => simp [eq_comm]
  | cons x xs ih =>
    rw [List.mapM_cons, List.forall₂_cons_left_iff]
    simp only [Option.bind_eq_bind, Option.bind_eq_some_iff, ih, Option.pure_def, Option.some.injEq]
    constructor
    · rintro ⟨y, hy, ys', hys, rfl⟩
      exact ⟨y, ys', hy, hys, rfl⟩
    · rintro ⟨y, ys', hy, hys, rfl⟩
      exact ⟨y, hy, ys', hys, rfl⟩

namespace Stencil

/-! ### What a section leads to -/

namespace Section

/-- The partial that the first tag of a section includes, if there is one. -/
def included? (partials : Registry) (x : Section) : Option Template :=
  match nextTag x.text with
  | none => none
  | some s =>
    match s.tag with
    | .inclusion name => partials.get? name
    | _ => none

/-- The sections of the same template that the renderer goes on to, in order. -/
def further (x : Section) : List Section :=
  match nextTag x.text with
  | none => []
  | some s =>
    match s.tag with
    | .opening kind path =>
      let b := Block.scan kind s.rest
      b.sections (s.token x.offset).stop (x.scope.lookup path) x.scope ++ [x.behindBlock s b]
    | _ => [x.behind s]

/-- Whether the renderer **comes to** another section without going into partials. -/
def LeadsTo : Section → Section → Prop :=
  Relation.ReflTransGen fun x y => y ∈ x.further

end Section

namespace Call

/-- The call on the partial that the first tag includes, if there is one and the depth allows for
it. -/
def onIncluded? (partials : Registry) (c : Call) : Option Call :=
  match c.depth with
  | 0 => none
  | depth + 1 => (c.part.included? partials).map (whole depth · c.part.scope)

/-- A call goes on to the partial that its first tag includes, and in its own template. -/
theorem next_eq_append (partials : Registry) (c : Call) :
    c.next partials = (c.onIncluded? partials).toList ++ c.part.further.map c.on := by
  rw [onIncluded?, Section.further, Section.included?]
  -- a call that does not include anything makes the same calls at every depth
  cases hs : nextTag c.part.text with
  | none =>
    rw [next_of_nextTag_none hs]
    cases c.depth <;> rfl
  | some s =>
    rw [next_of_nextTag hs, nextAt]
    cases htag : s.tag with
    | inclusion name =>
      simp only [onPartial?, htag]
      rfl
    | opening kind path =>
      simp only [htag, List.map_append]
      cases c.depth <;> rfl
    | _ =>
      simp only [htag]
      cases c.depth <;> rfl

/-! ### Results that may be missing -/

variable {partials : Registry} {c : Call} {r : Rendered}

/-- Whether a call is to include a partial and there is **no depth left** for it. -/
def runsOut (partials : Registry) (c : Call) : Bool :=
  c.depth == 0 && (c.part.included? partials).isSome

/-- **What a call gives if it ends**: nothing if the depth runs out, in it or in a call that it
makes. -/
def result? (partials : Registry) (c : Call) : Option Rendered :=
  if c.runsOut partials then none
  else
    ((c.next partials).attach.mapM fun d => result? partials d.1).map fun results =>
      ⟨c.writes, c.remarks partials⟩ ++ .join results
termination_by (c.depth, c.part.text.length)
decreasing_by exact lt_of_mem_next d.2

theorem result?_eq (partials : Registry) (c : Call) :
    c.result? partials =
      if c.runsOut partials then none
      else ((c.next partials).mapM (result? partials)).map fun results =>
        ⟨c.writes, c.remarks partials⟩ ++ .join results := by
  rw [result?, List.mapM_subtype fun _ _ => rfl, List.unattach_attach]

theorem result?_eq_some_iff :
    c.result? partials = some r ↔ c.runsOut partials = false ∧ ∃ results,
      List.Forall₂ (fun d r => d.result? partials = some r) (c.next partials) results ∧
        ⟨c.writes, c.remarks partials⟩ ++ .join results = r := by
  rw [result?_eq]
  cases c.runsOut partials with
  | true => simp
  | false => simp [List.mapM_eq_some_iff]

/-- **A result is what the renderer gives.** -/
theorem result_of_result? (h : c.result? partials = some r) : c.result partials = r := by
  induction c using (wellFounded_next partials).induction generalizing r with
  | _ c ih =>
    obtain ⟨-, results, hresults, rfl⟩ := result?_eq_some_iff.1 h
    have hsame : (c.next partials).map (result partials) = results.map id :=
      hresults.map_eq_map fun d hd _ hr => ih d hd hr
    rw [result_eq, hsame, List.map_id]

/-- The call with one more level of partials allowed for. -/
def deeper (c : Call) : Call :=
  { c with depth := c.depth + 1 }

/-- Where the depth does not run out, more of it changes nothing but the depth. -/
theorem next_deeper (h : c.runsOut partials = false) :
    c.deeper.next partials = (c.next partials).map deeper := by
  rw [next_eq_append, next_eq_append, List.map_append, List.map_map]
  congr 1
  obtain ⟨depth, template, part⟩ := c
  cases depth with
  -- the depth has not run out, so there is nothing to include, or some depth left for it
  | zero =>
    have hnone : part.included? partials = none := by
      simpa [runsOut] using h
    simp [onIncluded?, deeper, hnone]
  | succ depth =>
    simp only [onIncluded?, deeper]
    cases part.included? partials with
    | none => rfl
    | some u => rfl

/-- **A result stays the same** when more depth is allowed for. -/
theorem result?_deeper (h : c.result? partials = some r) :
    c.deeper.result? partials = some r := by
  induction c using (wellFounded_next partials).induction generalizing r with
  | _ c ih =>
    obtain ⟨hdepth, results, hresults, rfl⟩ := result?_eq_some_iff.1 h
    refine result?_eq_some_iff.2 ⟨rfl, results, ?_, rfl⟩
    rw [next_deeper hdepth, List.forall₂_map_left_iff]
    have hboth := (List.forall₂_and_left _ _).2 ⟨fun d hd => hd, hresults⟩
    exact hboth.imp fun d _ hd => ih d hd.1 hd.2

theorem result?_whole_mono {depth depth' : Nat} (hle : depth ≤ depth') {t : Template}
    {scope : Scope} (h : (whole depth t scope).result? partials = some r) :
    (whole depth' t scope).result? partials = some r := by
  induction hle with
  | refl => exact h
  | step _ ih => exact result?_deeper ih

/-! ### Calls that end -/

/-- Whether a call **ends** before the depth runs out. -/
def Ends (partials : Registry) (c : Call) : Prop :=
  (c.result? partials).isSome = true

/-- Whether the render of a partial ends where partials may still be nested `depth` deep. -/
def EndsIncluded (partials : Registry) : Nat → Template → Scope → Prop
  | 0, _, _ => False
  | depth + 1, u, scope => (whole depth u scope).Ends partials

/-- **A call ends** if the partial does that its first tag includes, and all calls do that go on in
its own template. -/
theorem ends_iff :
    c.Ends partials ↔
      (∀ u, c.part.included? partials = some u →
        EndsIncluded partials c.depth u c.part.scope) ∧
      ∀ y ∈ c.part.further, (c.on y).Ends partials := by
  have hstep : c.Ends partials ↔
      c.runsOut partials = false ∧ ∀ d ∈ c.next partials, d.Ends partials := by
    rw [Ends, result?_eq]
    cases c.runsOut partials with
    | true => simp
    | false =>
      rw [if_neg Bool.false_ne_true, Option.isSome_map, List.isSome_mapM_iff]
      exact (and_iff_right rfl).symm
  -- the depth runs out for the partial that the first tag includes, and for nothing else
  rw [hstep, next_eq_append, List.forall_mem_append, List.forall_mem_map, ← and_assoc]
  refine and_congr_left' ?_
  obtain ⟨depth, template, part⟩ := c
  cases hincluded : part.included? partials with
  | none => cases depth <;> simp [runsOut, onIncluded?, hincluded]
  | some u => cases depth <;> simp [runsOut, onIncluded?, EndsIncluded, hincluded]

/-- So it ends if all partials do which its **section comes to include**. -/
theorem ends_iff_forall :
    c.Ends partials ↔ ∀ y, c.part.LeadsTo y → ∀ u, y.included? partials = some u →
      EndsIncluded partials c.depth u y.scope := by
  constructor
  · intro h y hy
    generalize hx : c.part = x at hy
    -- what is included first, and then what is included further on in the template
    induction hy using Relation.ReflTransGen.head_induction_on generalizing c with
    | refl =>
      rw [← hx]
      exact (ends_iff.1 h).1
    | @head x z hz _ ih => exact ih (c := c.on z) ((ends_iff.1 h).2 z (hx ▸ hz)) rfl
  · intro h
    induction c using (wellFounded_next partials).induction with
    | _ c ih =>
      refine ends_iff.2 ⟨h c.part .refl, fun y hy => ih (c.on y) ?_ fun z hz => h z (.head hy hz)⟩
      rw [next_eq_append]
      exact List.mem_append_right _ (List.mem_map_of_mem hy)

end Call

/-! ### Bounds of steps -/

/-- Whether `E n a` says that **no more than `n` steps** lead on from `a`, one after the other. -/
structure BoundsSteps {α : Type} (r : α → α → Prop) (E : Nat → α → Prop) : Prop where
  zero : ∀ a, E 0 a ↔ ∀ b, ¬ r a b
  succ : ∀ n a, E (n + 1) a ↔ ∀ b, r a b → E n b

namespace BoundsSteps

variable {α : Type} {r : α → α → Prop} {E : Nat → α → Prop} {m n : Nat} {a b : α}

/-- The least bound, if there is one. -/
noncomputable def least (E : Nat → α → Prop) (a : α) : Nat :=
  sInf {n | E n a}

theorem least_spec (h : ∃ n, E n a) : E (least E a) a :=
  Nat.sInf_mem h

theorem least_le (h : E n a) : least E a ≤ n :=
  Nat.sInf_le h

section

variable (hE : BoundsSteps r E)
include hE

theorem mono (hmn : m ≤ n) (h : E m a) : E n a := by
  induction m generalizing n a with
  | zero =>
    have hend := (hE.zero a).1 h
    cases n with
    | zero => exact h
    | succ n => exact (hE.succ n a).2 fun b hb => absurd hb (hend b)
  | succ m ih =>
    obtain ⟨n, rfl⟩ : ∃ k, n = k + 1 := ⟨n - 1, by omega⟩
    exact (hE.succ n a).2 fun b hb => ih (by omega) ((hE.succ m a).1 h b hb)

/-- One step leads to something whose least bound is less by one. -/
theorem exists_least_eq (h : ∃ m, E m a) (hn : least E a = n + 1) :
    ∃ b, r a b ∧ (∃ m, E m b) ∧ least E b = n := by
  have hbounded : ∀ b, r a b → E n b := (hE.succ n a).1 (hn ▸ least_spec h)
  have hleast : ¬ E n a := fun hle => by
    have := least_le hle
    omega
  -- of all that one step leads to, something has no less a bound
  obtain ⟨b, hb, hlow⟩ : ∃ b, r a b ∧ ∀ m, m < n → ¬ E m b := by
    by_contra hnone
    push Not at hnone
    apply hleast
    cases n with
    | zero =>
      refine (hE.zero a).2 fun b hb => ?_
      obtain ⟨m, hm, -⟩ := hnone b hb
      exact absurd hm (Nat.not_lt_zero m)
    | succ n =>
      refine (hE.succ n a).2 fun b hb => ?_
      obtain ⟨m, hm, hmb⟩ := hnone b hb
      exact hE.mono (Nat.le_of_lt_succ hm) hmb
  have hbn := hbounded b hb
  refine ⟨b, hb, ⟨n, hbn⟩, Nat.le_antisymm (least_le hbn) (Nat.le_of_not_lt fun hlt => ?_)⟩
  exact hlow _ hlt (least_spec ⟨n, hbn⟩)

/-- So steps lead to something of each least bound below. -/
theorem exists_least_eq_of_lt {k : Nat} (h : ∃ m, E m a) (hk : k < least E a) :
    ∃ b, Relation.TransGen r a b ∧ least E b = k := by
  induction hn : least E a generalizing a with
  | zero => omega
  | succ n ih =>
    obtain ⟨b, hab, hb, hbn⟩ := hE.exists_least_eq h hn
    by_cases heq : n = k
    · exact ⟨b, .single hab, hbn.trans heq⟩
    · obtain ⟨d, hbd, hd⟩ := ih hb (by omega) hbn
      exact ⟨d, .head hab hbd, hd⟩

/-- **What is bounded at all is bounded by the number of kinds** of what steps lead to. -/
theorem length_of_kinds {kinds : List α}
    (hkinds : ∀ b, Relation.TransGen r a b → ∃ x ∈ kinds, ∀ n, E n b ↔ E n x)
    (h : ∃ m, E m a) : E kinds.length a := by
  -- all numbers below the least bound of `a` are least bounds of kinds
  have hsubset : List.range (least E a) ⊆ kinds.map (least E) := by
    intro k hk
    obtain ⟨b, hab, rfl⟩ := hE.exists_least_eq_of_lt h (List.mem_range.1 hk)
    obtain ⟨x, hx, hsame⟩ := hkinds b hab
    refine List.mem_map.2 ⟨x, hx, ?_⟩
    exact congrArg sInf (Set.ext fun n => (hsame n).symm)
  have hle := (List.nodup_range.subperm hsubset).length_le
  rw [List.length_range, List.length_map] at hle
  exact hE.mono hle (least_spec h)

end

end BoundsSteps

/-! ### From inclusion to inclusion -/

section Inclusions

variable {partials : Registry}

/-- A template and the scope in which it is rendered. -/
abbrev Task := Template × Scope

/-- Whether the render of one template comes to **include** another one, in that scope. -/
def Asks (partials : Registry) (a b : Task) : Prop :=
  ∃ y, Section.LeadsTo ⟨a.1.source, 0, a.2⟩ y ∧ y.included? partials = some b.1 ∧ y.scope = b.2

/-- Whether a render ends in which partials may be nested `depth` deep. -/
def EndsAt (partials : Registry) (depth : Nat) (a : Task) : Prop :=
  (Call.whole depth a.1 a.2).Ends partials

theorem endsAt_iff {depth : Nat} {a : Task} : EndsAt partials depth a ↔
    ∀ b, Asks partials a b → Call.EndsIncluded partials depth b.1 b.2 := by
  rw [EndsAt, Call.ends_iff_forall]
  constructor
  · rintro h ⟨u, scope⟩ ⟨y, hy, hu, rfl⟩
    exact h y hy u hu
  · exact fun h y hy u hu => h (u, y.scope) ⟨y, hy, hu, rfl⟩

/-- A render ends in which no more inclusions can be inside each other than the depth allows for. -/
theorem boundsSteps_endsAt (partials : Registry) : BoundsSteps (Asks partials) (EndsAt partials) :=
  ⟨fun _ => endsAt_iff, fun _ _ => endsAt_iff⟩

/-- A render of a section comes only to tags of its text. -/
theorem Section.tagsIn_subset_of_leadsTo {x y : Section} (h : x.LeadsTo y) :
    tagsIn y.text ⊆ tagsIn x.text := by
  induction h with
  | refl => exact List.Subset.refl _
  | @tail z y _ hy ih =>
    refine List.Subset.trans ?_ ih
    unfold further at hy
    split at hy
    · cases hy
    · next k hk =>
      have hbehind := tagsIn_behind_subset hk
      split at hy
      · -- a section of the block, or what is left behind it
        rcases List.mem_append.1 hy with hy | hy
        · refine List.Subset.trans (tagsIn_sections_subset hy) ?_
          exact List.Subset.trans (tagsIn_body_subset _ k.rest) hbehind
        · rw [List.mem_singleton.1 hy]
          exact List.Subset.trans (tagsIn_rest_subset _ k.rest) hbehind
      · rw [List.mem_singleton.1 hy]
        exact hbehind

/-- A partial that a render comes to include is needed. -/
theorem Asks.exists_includes {a b : Task} (h : Asks partials a b) :
    ∃ name, a.1.Includes name ∧ partials.get? name = some b.1 := by
  obtain ⟨y, hy, hu, -⟩ := h
  unfold Section.included? at hu
  split at hu
  · cases hu
  · next k hk =>
    split at hu
    · next name htag =>
      have hmem := Section.tagsIn_subset_of_leadsTo hy (htag ▸ tag_mem_tagsIn hk)
      exact ⟨name, Template.includes_iff.2 hmem, hu⟩
    · cases hu

/-! ### Scopes that look alike -/

/-- A section goes on alike in scopes that look alike. -/
theorem Section.forall₂_further {names : Text → Prop} {x x' : Section}
    (hnames : ∀ name, names name) (h : x.AgreeOn names x') :
    List.Forall₂ (Section.AgreeOn names) x.further x'.further := by
  obtain ⟨text, offset, s⟩ := x
  obtain ⟨text', offset', s'⟩ := x'
  obtain ⟨rfl, rfl, hs⟩ : text = text' ∧ offset = offset' ∧ s.AgreeOn names s' :=
    ⟨h.text, h.offset, h.scope⟩
  unfold further
  cases nextTag text with
  | none => exact .nil
  | some k =>
    simp only
    cases k.tag with
    | opening kind path =>
      simp only
      -- the path leads to the same, and so the block leads to the same sections
      rw [hs.lookup (hnames path.firstPiece)]
      exact List.rel_append (Block.forall₂_sections hs _ _ _) (.cons ⟨rfl, rfl, hs⟩ .nil)
    | _ => exact .cons ⟨rfl, rfl, hs⟩ .nil

/-- What is asked for in one scope is so in another one that looks alike. -/
theorem Asks.exists_of_alike {t : Template} {s s' : Scope} (halike : s'.Alike s) {b : Task}
    (h : Asks partials (t, s) b) :
    ∃ scope', Asks partials (t, s') (b.1, scope') ∧ Scope.Alike scope' b.2 := by
  obtain ⟨y, hy, hu, hscope⟩ := h
  -- a render in the other scope comes to a section with the same text
  obtain ⟨y', hy', hagree⟩ : ∃ y', Section.LeadsTo ⟨t.source, 0, s'⟩ y' ∧
      y'.AgreeOn (fun _ => True) y := by
    clear hu hscope
    induction hy with
    | refl => exact ⟨_, .refl, rfl, rfl, halike⟩
    | tail _ hz ih =>
      obtain ⟨x', hx', hagree⟩ := ih
      obtain ⟨z', hz', hzagree⟩ :=
        (Section.forall₂_further (fun _ => trivial) hagree).exists_of_mem_right hz
      exact ⟨z', hx'.tail hz', hzagree⟩
  refine ⟨y'.scope, ⟨y', hy', ?_, rfl⟩, hscope ▸ hagree.scope⟩
  rw [Section.included?, hagree.text]
  exact hu

theorem EndsAt.of_alike {depth : Nat} {t : Template} {s s' : Scope} (halike : s'.Alike s)
    (h : EndsAt partials depth (t, s')) : EndsAt partials depth (t, s) := by
  induction depth generalizing t s s' with
  | zero =>
    refine ((boundsSteps_endsAt partials).zero _).2 fun b hb => ?_
    obtain ⟨scope', hasks, -⟩ := hb.exists_of_alike halike
    exact ((boundsSteps_endsAt partials).zero _).1 h _ hasks
  | succ depth ih =>
    refine ((boundsSteps_endsAt partials).succ _ _).2 fun b hb => ?_
    obtain ⟨scope', hasks, hscope⟩ := hb.exists_of_alike halike
    exact ih hscope (((boundsSteps_endsAt partials).succ _ _).1 h _ hasks)

/-- **Whether a render ends** is decided by what the names of its scope stand for. -/
theorem endsAt_congr {depth : Nat} {t : Template} {s s' : Scope} (halike : s.Alike s') :
    EndsAt partials depth (t, s) ↔ EndsAt partials depth (t, s') :=
  ⟨.of_alike halike, .of_alike fun name hname => (halike name hname).symm⟩

/-- The scope of a section of a block is the one of the block, or that of a round. -/
theorem Block.scope_of_mem_sections {b : Block} {offset : Nat} {value : Value} {scope : Scope}
    {x : Section} (h : x ∈ b.sections offset value scope) : x.scope = scope ∨
      ∃ items, value.items? = some items ∧ ∃ r ∈ roundsOver items, x.scope = r.scope scope := by
  rcases Block.eq_of_mem_sections h with ⟨items, hitems, i, hi, rfl⟩ | rfl | rfl | ⟨_, _, rfl⟩
  · exact .inr ⟨items, hitems, ⟨items[i], i, items.length⟩, List.mem_mapIdx.2 ⟨i, hi, rfl⟩, rfl⟩
  · exact .inl rfl
  · exact .inl rfl
  · exact .inl rfl

/-- A render stays in the scopes that begin in the first one. -/
theorem Section.isReachedFrom_of_leadsTo {s : Scope} {x y : Section}
    (hx : s.IsReachedFrom x.scope) (h : x.LeadsTo y) : s.IsReachedFrom y.scope := by
  induction h with
  | refl => exact hx
  | @tail z y _ hy ih =>
    unfold further at hy
    split at hy
    · cases hy
    · split at hy
      · rcases List.mem_append.1 hy with hy | hy
        -- the path of an each block leads to a list in the scope, and its rounds begin there
        · rcases Block.scope_of_mem_sections hy with hsame | ⟨items, hitems, r, hr, hround⟩
          · exact hsame ▸ ih
          · exact hround ▸ ih.iteration hitems hr
        · exact List.mem_singleton.1 hy ▸ ih
      · exact List.mem_singleton.1 hy ▸ ih

/-- The partials, each with all scopes that a render can come to. -/
def tasksFrom (partials : Registry) (s : Scope) : List Task :=
  (partials.templates.entries.map (·.2)) ×ˢ s.rangeOf

theorem length_tasksFrom_le (partials : Registry) (s : Scope) :
    (tasksFrom partials s).length ≤ inclusionBound partials s := by
  rw [tasksFrom, List.length_product, List.length_map]
  exact Nat.mul_le_mul_left _ s.length_rangeOf_le

theorem Asks.isReachedFrom {s : Scope} {a b : Task} (ha : s.IsReachedFrom a.2)
    (h : Asks partials a b) : s.IsReachedFrom b.2 := by
  obtain ⟨y, hy, -, hscope⟩ := h
  exact hscope ▸ Section.isReachedFrom_of_leadsTo ha hy

/-- **Whatever a render comes to include** ends as one of the tasks does that begin in its scope. -/
theorem exists_task_of_asks {a b : Task} (h : Relation.TransGen (Asks partials) a b) :
    ∃ x ∈ tasksFrom partials a.2, ∀ depth, EndsAt partials depth b ↔ EndsAt partials depth x := by
  have hscope : Scope.IsReachedFrom a.2 b.2 := by
    -- on the inclusions, one inside the other: each stays in the scopes of the first one
    induction h with
    | single hb => exact hb.isReachedFrom a.2.isReachedFrom_self
    | tail _ hb ih => exact hb.isReachedFrom ih
  obtain ⟨last, -, hb⟩ := Relation.TransGen.tail'_iff.1 h
  obtain ⟨name, -, hname⟩ := hb.exists_includes
  obtain ⟨x, hx, halike⟩ := hscope
  refine ⟨(b.1, x), List.pair_mem_product.2 ⟨?_, hx⟩, fun depth => endsAt_congr halike⟩
  exact List.mem_map_of_mem (NameMap.mem_of_find? hname)

end Inclusions

/-! ### Whole renders -/

/-- **What a template is rendered to, if that ends.** -/
def renderTemplate? (partials : Registry) (t : Template) (scope : Scope) : Option Rendered :=
  (Call.whole (inclusionBound partials scope) t scope).result? partials

section Whole

variable {partials : Registry} {t : Template} {scope : Scope} {r : Rendered}

/-- What a render gives if it ends, it gives. -/
theorem renderTemplate_of_renderTemplate? (h : renderTemplate? partials t scope = some r) :
    renderTemplate partials t scope = r :=
  Call.result_of_result? h

/-- **A render ends** if any depth of partials inside each other is enough for it. So one that has
no result goes on for ever. -/
theorem renderTemplate?_eq_some_iff :
    renderTemplate? partials t scope = some r
      ↔ ∃ depth, (Call.whole depth t scope).result? partials = some r := by
  refine ⟨fun h => ⟨_, h⟩, ?_⟩
  rintro ⟨depth, hr⟩
  have hsome : EndsAt partials depth (t, scope) := by
    rw [EndsAt, Call.Ends, hr]
    rfl
  have hbounds := boundsSteps_endsAt partials
  have htasks : EndsAt partials (tasksFrom partials scope).length (t, scope) :=
    hbounds.length_of_kinds (fun b hb => exists_task_of_asks hb) ⟨depth, hsome⟩
  have hbound := hbounds.mono (length_tasksFrom_le partials scope) htasks
  obtain ⟨r', hr'⟩ := Option.isSome_iff_exists.1 hbound
  -- with the greater of the two depths, both results are the same
  have hsame := (Call.result?_whole_mono (Nat.le_max_left depth _) hr).symm.trans
    (Call.result?_whole_mono (Nat.le_max_right depth _) hr')
  rw [Option.some.inj hsame]
  exact hr'

/-- **A render ends** if it can reach no cycle of inclusions. -/
theorem exists_renderTemplate?_of_acyclicFrom (h : partials.AcyclicFrom t) (scope : Scope) :
    ∃ r, renderTemplate? partials t scope = some r := by
  -- the rank goes down along inclusions
  have hneeded (depth : Nat) {name : Text} (hname : partials.Needs t name) {u : Template}
      (hu : partials.get? name = some u) (hrank : partials.rank name ≤ depth) (s : Scope) :
      EndsAt partials depth (u, s) := by
    induction depth generalizing name u s with
    | zero =>
      refine ((boundsSteps_endsAt partials).zero _).2 fun b hb => ?_
      obtain ⟨other, hother, hv⟩ := hb.exists_includes
      have hlt := Registry.rank_lt_of_needs h hname hu hother hv
      omega
    | succ depth ih =>
      refine ((boundsSteps_endsAt partials).succ _ _).2 fun b hb => ?_
      obtain ⟨other, hother, hv⟩ := hb.exists_includes
      have hlt := Registry.rank_lt_of_needs h hname hu hother hv
      exact ih (hname.trans hu hother) hv (by omega) b.2
  have hends : EndsAt partials (partials.size + 1) (t, scope) := by
    refine ((boundsSteps_endsAt partials).succ _ _).2 fun b hb => ?_
    obtain ⟨name, hincludes, hu⟩ := hb.exists_includes
    have hneeds := Registry.needs_of_includes (r := partials) hincludes
    have hsize := Registry.rank_lt_size_of_needs h hneeds hu
    exact hneeded partials.size hneeds hu hsize.le b.2
  obtain ⟨r, hr⟩ := Option.isSome_iff_exists.1 hends
  exact ⟨r, renderTemplate?_eq_some_iff.2 ⟨_, hr⟩⟩

end Whole

/-- A partial that includes itself for each item of a menu that is nested. -/
def menu : Template :=
  .ofSource "menu".toList
    "\x7b\x7b#each this\x7d\x7d[\x7b\x7b> menu\x7d\x7d]\x7b\x7b/each\x7d\x7d".toList

-- A partial that includes itself, come what may, has no result; over a menu it comes to an end.
example : renderTemplate? (.ofSources [("endless".toList, endless.source)]) endless (.root ∅ ∅)
    = none := by
  cbv

example : renderTemplate? (.ofSources [("menu".toList, menu.source)]) menu
    (.iteration (.root ∅ ∅) (.list [.list [], .list [.list []]]) 0 1)
    = some ⟨"[][[]]".toList, []⟩ := by
  cbv

/-! ### Engines -/

/-- **What an engine renders the template of a name to**, or its error, if that ends. -/
def Engine.render? (e : Engine) (name : Text) (context : Context) :
    Option (Except EngineError Rendered) :=
  match e.templates.get? name with
  | some t => (renderTemplate? e.partials t (.root context e.globals)).map .ok
  | none => some (.error (.templateNotFound name))

end Stencil
