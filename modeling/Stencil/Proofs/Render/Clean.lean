import Stencil.Proofs.Render.Inclusion
import Stencil.Proofs.Render.Sense
import Stencil.Proofs.Tag.WellNested

/-!
# Clean templates

A template of well-nested blocks, all of whose partials exist and are such templates too, has
nothing to report (`Template.IsSound.includedAt`).

What a body reports depends on the data, since that decides how often its sections are rendered. A
body that shows nothing at all, in no branch and in no scope, does so whatever the data is
(`Sense.IsSilent`), and this the parser keeps from tag to tag: each closing tag has the kind of the
innermost open block, so no block has anything to say about its end (`Parser.IsSilent.step`).
-/

namespace Stencil

/-! ### Silence -/

namespace Sense

variable {α : Type} {a b : Sense α}

/-- Whether a body **shows nothing**, neither as a whole nor in any of its branches. -/
structure IsSilent (a : Sense α) : Prop where
  whole : ∀ scope, a.whole scope = []
  first : ∀ scope, a.first scope = []
  second : ∀ other, a.second = some other → ∀ scope, other scope = []

theorem isSilent_empty : (∅ : Sense α).IsSilent :=
  ⟨fun _ => rfl, fun _ => rfl, fun _ h => by cases h⟩

theorem IsSilent.append (ha : a.IsSilent) (hb : b.IsSilent) : (a ++ b).IsSilent := by
  change (Sense.append a b).IsSilent
  refine ⟨fun scope => ?_, fun scope => ?_, fun other h scope => ?_⟩
  · simp [Sense.append, ha.whole, hb.whole]
  · simp [Sense.append, ha.first, hb.first]
  · simp only [Sense.append] at h
    split at h
    · exact hb.second other h scope
    · next first hfirst =>
      obtain rfl := Option.some.inj h
      simp [ha.second first hfirst, hb.whole]

/-- A block whose body shows nothing shows what is shown of the block itself. -/
theorem IsSilent.block_eq (h : a.IsSilent) (kind : BlockKind) (path : Text) (head : List α) :
    block kind path head a = leaf fun _ => head := by
  refine congrArg leaf (funext fun scope => ?_)
  cases kind with
  | each => simp [h.whole, List.mapIdx_eq_zipIdx_map]
  | cond =>
    cases hsecond : a.second with
    | none => simp [h.first]
    | some other => simp [h.first, h.second other hsecond]
  | notCond => simp [h.whole]

end Sense

/-! ### Well-nested templates -/

section Clean

variable {α : Type} {v : View α}

/-- A fragment that writes text alone is silent, if text is. -/
theorem View.isSilent_singleton {x : Fragment} (h : ∀ scope, v.shown [x] scope = []) :
    (v.sense [x]).IsSilent := by
  by_cases hx : x = .alternative
  · subst hx
    refine ⟨h, v.shown_nil, fun other hother => ?_⟩
    obtain rfl := Option.some.inj hother
    exact v.shown_nil
  · rw [v.sense_singleton hx]
    exact ⟨h, h, fun _ hother => by cases hother⟩

/-- A block whose body is silent shows what is shown of its end. -/
theorem View.shown_block {f : Frame} {close : Option BlockKind} {body : List Fragment}
    (h : (v.sense body).IsSilent) (scope : Scope) :
    v.shown [f.block close body] scope = v.report ⟨f.path, f.start, f.stop, close⟩ f.kind := by
  have hsense := v.sense_block f close body
  rw [h.block_eq] at hsense
  exact congrFun (congrArg Sense.whole hsense) scope

/-- Whether a parser has read nothing that shows anything. -/
structure Parser.IsSilent (v : View α) (p : Parser) : Prop where
  fragments : (v.sense p.fragments).IsSilent
  before : ∀ f ∈ p.frames, (v.sense f.before).IsSilent

namespace Parser.IsSilent

theorem push {p : Parser} {x : Fragment} (h : p.IsSilent v) (hx : ∀ scope, v.shown [x] scope = []) :
    (p.push x).IsSilent v := by
  refine ⟨?_, h.before⟩
  change (v.sense (p.fragments ++ [x])).IsSilent
  rw [v.sense_append]
  exact h.fragments.append (View.isSilent_singleton hx)

/-- **A tag keeps a parser silent** that closes a block of its own kind, if it closes one. -/
theorem step (htext : ∀ t, v.observation.of (.ofText t) = []) {p : Parser} {k : Token}
    (h : p.IsSilent v) (hclose : k.tag.closesInnermost (p.frames.map Frame.kind))
    (hinclusion : ∀ name, k.tag = .inclusion name → ∀ scope,
      v.shown [.inclusion name k.start k.stop] scope = []) : (p.step k).IsSilent v := by
  have hwritten {x : Fragment} {t : Scope → Text}
      (hx : ∀ scope, x.eval v.partials v.included v.template scope = .ofText (t scope)) :
      ∀ scope, v.shown [x] scope = [] := by
    intro scope
    rw [View.shown, evalAll_singleton, hx, htext]
  have hbefore : (p.push (.text k.before)).IsSilent v :=
    h.push (hwritten fun _ => by rw [Fragment.eval])
  unfold Parser.step
  cases htag : k.tag with
  | value path => exact hbefore.push (hwritten fun _ => by rw [Fragment.eval])
  | alternative => exact hbefore.push (hwritten fun _ => by rw [Fragment.eval])
  | inclusion name => exact hbefore.push (hinclusion name htag)
  | opening kind path =>
    refine ⟨?_, List.forall_mem_cons.2 ⟨hbefore.fragments, hbefore.before⟩⟩
    rw [v.sense_nil]
    exact Sense.isSilent_empty
  | closing kind =>
    obtain ⟨xs, frames⟩ := p
    cases frames with
    | nil => exact hbefore.push (hwritten fun _ => by rw [Fragment.eval])
    | cons f outer =>
      obtain ⟨hf, houter⟩ := List.forall_mem_cons.1 hbefore.before
      refine ⟨?_, houter⟩
      -- the block that ends says nothing about its end, and its body shows nothing either
      have hkind : f.kind = kind := by simpa [htag, Tag.closesInnermost] using hclose
      change (v.sense (f.before ++ [f.block (some kind) _])).IsSilent
      rw [v.sense_append, v.sense_block, hbefore.fragments.block_eq, ← hkind, v.report_of_close]
      exact hf.append ⟨fun _ => rfl, fun _ => rfl, fun _ hother => by cases hother⟩

/-- **Matched tags keep a parser silent**, to the end of the text. -/
theorem sense_parse (htext : ∀ t, v.observation.of (.ofText t) = []) {p : Parser}
    {ks : List Token} (h : p.IsSilent v)
    (hmatched : Tag.areMatched (p.frames.map Frame.kind) (ks.map Token.tag))
    (hinclusion : ∀ k ∈ ks, ∀ name, k.tag = .inclusion name → ∀ scope,
      v.shown [.inclusion name k.start k.stop] scope = []) (last : Text) :
    (v.sense (p.parse ks last)).IsSilent := by
  induction ks generalizing p with
  | nil =>
    obtain ⟨xs, frames⟩ := p
    -- at the end no block is open
    obtain rfl : frames = [] := List.map_eq_nil_iff.1 (List.isEmpty_iff.1 hmatched)
    refine (h.push (x := .text last) fun scope => ?_).fragments
    rw [v.shown_text, htext]
  | cons k ks ih =>
    rw [List.map_cons, Tag.areMatched, Bool.and_eq_true, ← Parser.map_kind_step] at hmatched
    obtain ⟨hk, hks⟩ := List.forall_mem_cons.1 hinclusion
    rw [Parser.parse_cons]
    exact ih (h.step htext hmatched.1 hk) hmatched.2 hks

end Parser.IsSilent

end Clean

/-- Whether the block tags of a template are well nested, and every partial that it includes
exists. -/
structure Template.IsSound (partials : Registry) (t : Template) : Prop where
  wellNested : WellNested (((tags t.source).map TagSplit.tag).filter Tag.isBlockTag)
  exists_partial : ∀ name, t.Includes name → ∃ u, partials.get? name = some u

/-- **A sound template is clean**, if partials are sound. -/
theorem Template.IsSound.includedAt {partials : Registry} {t : Template} (ht : t.IsSound partials)
    (hpartials : ∀ name u, partials.get? name = some u → u.IsSound partials) (depth : Nat)
    (scope : Scope) : (Stencil.includedAt partials depth t scope).diagnostics = [] := by
  induction depth generalizing t scope with
  | zero => rfl
  | succ depth ih =>
    let v : View Diagnostic :=
      ⟨partials, Stencil.includedAt partials depth, t, .diagnostics (fun _ => true) id⟩
    have hstart : Parser.start.IsSilent v :=
      ⟨by rw [Parser.start, v.sense_nil]; exact Sense.isSilent_empty, by simp [Parser.start]⟩
    have hmatched : Tag.areMatched [] ((tokens 0 t.source).map Token.tag) := by
      rw [map_tag_tokens]
      exact wellNested_iff.1 ht.wellNested
    -- what is included is sound as well, and so it is clean with less depth
    have hinclusion : ∀ k ∈ tokens 0 t.source, ∀ name, k.tag = .inclusion name → ∀ scope,
        v.shown [.inclusion name k.start k.stop] scope = [] := by
      intro k hk name htag scope
      obtain ⟨s, hs, hstag⟩ := exists_of_mem_tokensOf hk
      obtain ⟨u, hu⟩ := ht.exists_partial name ⟨s, hs, hstag.trans htag⟩
      have hclean := ih (hpartials name u hu) scope
      simp [View.shown, evalAll_singleton, Fragment.eval, v, hu, Observation.diagnostics, hclean]
    have hsilent := hstart.sense_parse (fun _ => rfl) hmatched hinclusion (lastText t.source)
    have hshown : v.shown t.tree scope = [] := hsilent.whole scope
    rw [includedAt_succ]
    simpa [View.shown, v, Observation.diagnostics] using hshown

end Stencil
