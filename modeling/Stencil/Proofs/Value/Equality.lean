import Mathlib.Data.List.Forall2
import Mathlib.Data.List.Perm.Subperm
import Stencil.Proofs.Value.Fields
import Stencil.Proofs.Value.Parts
import Stencil.Value.Lookup

/-!
# Equality of values

Values are compared case by case, and the cases are not told symmetrically: a mapping is compared by
the names of its first side, and a number of one type may stand beside a number of another. On exact
values, which have no fractional numbers and no repeated names, this is an equality all the same.

What one comparison decides, if what the values hold is compared by some relation, is `AlikeBy`. It
passes on whatever the relation has:

* `equals_iff_alikeBy` — exact values are equal if and only if they are alike, and what they hold is
  equal;
* `AlikeBy.refl`, `AlikeBy.symm`, `AlikeBy.trans` — being alike is reflexive, symmetric and
  transitive, as far as the relation is on what the values hold;
* `AlikeBy.child` — whatever a segment of a path leads to is then related, or nothing on both sides.

Each property of the equality is then an induction on what a value holds (`equals_refl`,
`equals_symm`, `equals_trans`), and a path is followed segment by segment (`equals_lookup`).
-/

/-! ### Relations between what may be there -/

section Rel

variable {α β γ : Type} {r : α → β → Prop} {a : Option α} {b : Option β}

theorem Option.Rel.eq_none_iff (h : Option.Rel r a b) : a = .none ↔ b = .none := by
  cases h with
  | none => exact iff_of_true rfl rfl
  | some _ => exact iff_of_false nofun nofun

theorem Option.Rel.imp {s : α → β → Prop} (h : Option.Rel r a b)
    (himp : ∀ x, a = .some x → ∀ y, b = .some y → r x y → s x y) : Option.Rel s a b := by
  cases h with
  | none => exact .none
  | some hxy => exact .some (himp _ rfl _ rfl hxy)

theorem Option.Rel.flip (h : Option.Rel r a b) : Option.Rel (fun y x => r x y) b a := by
  cases h with
  | none => exact .none
  | some hxy => exact .some hxy

theorem Option.Rel.comp {s : β → γ → Prop} {c : Option γ} (h : Option.Rel r a b)
    (h' : Option.Rel s b c) : Option.Rel (Relation.Comp r s) a c := by
  cases h with
  | none => cases h' with
    | none => exact .none
  | some hxy => cases h' with
    | some hyz => exact .some ⟨_, hxy, hyz⟩

theorem Option.Rel.getD {s : α → α → Prop} {a b : Option α} (h : Option.Rel s a b) {d : α}
    (hd : s d d) : s (a.getD d) (b.getD d) := by
  cases h with
  | none => exact hd
  | some hxy => exact hxy

theorem List.Forall₂.getElem? {xs : List α} {ys : List β} (h : List.Forall₂ r xs ys) (i : Nat) :
    Option.Rel r xs[i]? ys[i]? := by
  induction h generalizing i with
  | nil => exact .none
  | cons hxy _ ih =>
    cases i with
    | zero => exact .some hxy
    | succ i => exact ih i

theorem List.Forall₂.comp {s : β → γ → Prop} {xs : List α} {ys : List β} {zs : List γ}
    (h : List.Forall₂ r xs ys) (h' : List.Forall₂ s ys zs) :
    List.Forall₂ (Relation.Comp r s) xs zs := by
  induction h generalizing zs with
  | nil => cases h' with
    | nil => exact .nil
  | cons hxy _ ih => cases h' with
    | cons hyz h' => exact .cons ⟨_, hxy, hyz⟩ (ih h')

end Rel

namespace Stencil.Value

/-! ### Exact values -/

/-- Whether a value is **exact**: at every depth its numbers are whole, and the names in a mapping
are distinct. -/
structure IsExact (v : Value) : Prop where
  not_float : ∀ x, ¬ (float x).Within v
  nodup : ∀ fields, (map fields).Within v → (fields.map (·.1)).Nodup

theorem IsExact.ne_float {v : Value} (h : v.IsExact) (x : Double) : v ≠ float x :=
  fun heq => h.not_float x (heq ▸ .refl _)

theorem IsExact.of_within {v w : Value} (h : v.IsExact) (hw : w.Within v) : w.IsExact :=
  ⟨fun x hx => h.not_float x (hx.trans hw), fun fields hf => h.nodup fields (hf.trans hw)⟩

theorem IsExact.of_mem_parts {v w : Value} (h : v.IsExact) (hw : w ∈ v.parts) : w.IsExact :=
  h.of_within ((Parts.Within.refl w).of_mem_parts hw)

/-- A value is exact if it is so by itself, and what it holds is. -/
theorem isExact_iff {v : Value} :
    v.IsExact ↔ (∀ x, v ≠ float x) ∧ (∀ fields, v = map fields → (fields.map (·.1)).Nodup) ∧
      ∀ w ∈ v.parts, w.IsExact := by
  constructor
  · intro h
    refine ⟨h.ne_float, ?_, fun w hw => h.of_mem_parts hw⟩
    rintro fields rfl
    exact h.nodup fields (.refl _)
  · rintro ⟨hfloat, hnodup, hparts⟩
    constructor
    · intro x hx
      -- what stands within a value is the value itself, or stands within one of its parts
      rcases Parts.within_iff.1 hx with heq | ⟨w, hw, hwithin⟩
      · exact hfloat x heq.symm
      · exact (hparts w hw).not_float x hwithin
    · intro fields hfields
      rcases Parts.within_iff.1 hfields with heq | ⟨w, hw, hwithin⟩
      · exact hnodup fields heq.symm
      · exact (hparts w hw).nodup fields hwithin

/-- The order of the fields does not matter. -/
theorem IsExact.of_perm {fs gs : List (Text × Value)} (h : (map fs).IsExact) (hperm : gs.Perm fs) :
    (map gs).IsExact := by
  refine isExact_iff.2 ⟨nofun, ?_, ?_⟩
  · rintro fields heq
    obtain rfl := Value.map.inj heq
    exact (hperm.map (·.1)).nodup_iff.2 (h.nodup fs (.refl _))
  · intro w hw
    exact h.of_mem_parts ((hperm.map (·.2)).mem_iff.1 hw)

/-- What is found in a mapping is held by it. -/
theorem value_mem_parts {fields : List (Text × Value)} {name : Text} {v : Value}
    (h : Fields.get? name fields = some v) : v ∈ (map fields).parts :=
  List.mem_map.2 ⟨_, Fields.mem_of_get? h, rfl⟩

/-! ### One comparison -/

/-- Whether two values are **alike** if what they hold is compared by `r`: lists item by item, and
mappings name by name. -/
inductive AlikeBy (r : Value → Value → Prop) : Value → Value → Prop where
  | undefined : AlikeBy r undefined undefined
  | null : AlikeBy r null null
  | bool (b : Bool) : AlikeBy r (bool b) (bool b)
  | text (t : Text) : AlikeBy r (text t) (text t)
  | number {v w : Value} {n : Int} (hv : v.integer? = some n) (hw : w.integer? = some n) :
    AlikeBy r v w
  | list {xs ys : List Value} (h : List.Forall₂ r xs ys) : AlikeBy r (list xs) (list ys)
  | map {fs gs : List (Text × Value)}
      (h : ∀ name, Option.Rel r (Fields.get? name fs) (Fields.get? name gs)) :
    AlikeBy r (map fs) (map gs)

/-- The equality of what values hold. -/
abbrev AreEqual (v w : Value) : Prop :=
  v.equals w = true

theorem equalItems_iff {xs ys : List Value} :
    equalItems xs ys = true ↔ List.Forall₂ AreEqual xs ys := by
  induction xs generalizing ys with
  | nil => cases ys <;> simp [equalItems]
  | cons x xs ih => cases ys <;> simp [equalItems, ih]

theorem equalFields_iff {fs gs : List (Text × Value)} :
    equalFields fs gs = true ↔ ∀ f ∈ fs, ∃ y, Fields.get? f.1 gs = some y ∧ AreEqual f.2 y := by
  induction fs with
  | nil => simp [equalFields]
  | cons f fs ih =>
    obtain ⟨name, x⟩ := f
    rw [equalFields, Bool.and_eq_true, ih, List.forall_mem_cons]
    refine and_congr_left' ?_
    cases Fields.get? name gs with
    | none => simp
    | some y => simp

/-- **Mappings are equal** if and only if their look-ups are, where names are distinct: as there are
as many names on both sides, no name is left over on the second one. -/
theorem equals_map_iff {fs gs : List (Text × Value)} (hfs : (fs.map (·.1)).Nodup)
    (hgs : (gs.map (·.1)).Nodup) :
    (map fs).equals (map gs) = true
      ↔ ∀ name, Option.Rel AreEqual (Fields.get? name fs) (Fields.get? name gs) := by
  rw [equals, Bool.and_eq_true, beq_iff_eq, equalFields_iff]
  constructor
  · rintro ⟨hlength, hequal⟩ name
    have hsub : fs.map (·.1) ⊆ gs.map (·.1) := by
      intro k hk
      obtain ⟨f, hf, rfl⟩ := List.mem_map.1 hk
      obtain ⟨y, hy, -⟩ := hequal f hf
      exact List.mem_map.2 ⟨_, Fields.mem_of_get? hy, rfl⟩
    -- distinct names, all of which are on the other side: so they are all that are there
    have hperm : (fs.map (·.1)).Perm (gs.map (·.1)) := by
      refine (List.subperm_of_subset hfs hsub).perm_of_length_le ?_
      rw [List.length_map, List.length_map]
      exact Nat.le_of_eq hlength.symm
    cases hx : Fields.get? name fs with
    | none =>
      have hnone : Fields.get? name gs = none := by
        rw [Fields.get?_eq_none_iff, ← hperm.mem_iff]
        exact Fields.get?_eq_none_iff.1 hx
      rw [hnone]
      exact .none
    | some x =>
      obtain ⟨y, hy, hxy⟩ := hequal (name, x) (Fields.mem_of_get? hx)
      rw [hy]
      exact .some hxy
  · intro h
    have hnames (name : Text) : name ∈ fs.map (·.1) ↔ name ∈ gs.map (·.1) := by
      have hboth := (h name).eq_none_iff
      rw [Fields.get?_eq_none_iff, Fields.get?_eq_none_iff] at hboth
      exact not_iff_not.1 hboth
    refine ⟨?_, ?_⟩
    · have hperm := (List.perm_ext_iff_of_nodup hfs hgs).2 hnames
      simpa using hperm.length_eq
    · intro f hf
      have hrel := h f.1
      rw [(Fields.get?_eq_some_iff hfs).2 hf] at hrel
      generalize hy : Fields.get? f.1 gs = found at hrel
      cases hrel with
      | some hxy => exact ⟨_, rfl, hxy⟩

/-- Without fractional numbers, numbers are equal if they are the same whole number. -/
theorem equalNumbers_iff {v w : Value} (hv : ∀ x, v ≠ float x) (hw : ∀ x, w ≠ float x) :
    equalNumbers v w = true ↔ ∃ n, v.integer? = some n ∧ w.integer? = some n := by
  unfold equalNumbers
  split
  · exact absurd rfl (hv _)
  · exact absurd rfl (hw _)
  · cases hm : v.integer? with
    | none => simp
    | some m =>
      cases hn : w.integer? with
      | none => simp
      | some n => simp [eq_comm]

theorem equals_of_integer? {v w : Value} {n : Int} (hv : v.integer? = some n) :
    v.equals w = equalNumbers v w := by
  cases v with
  | unsigned _ | signed _ => cases w <;> rfl
  | _ => cases hv

/-- **Exact values are equal** if and only if they are alike, and what they hold is equal. -/
theorem equals_iff_alikeBy {v w : Value} (hv : v.IsExact) (hw : w.IsExact) :
    v.equals w = true ↔ AlikeBy AreEqual v w := by
  constructor
  · intro h
    -- one case for each pair of values of one kind, and the last one for all other pairs
    unfold equals at h
    split at h
    · exact .undefined
    · exact .null
    · next a b => exact beq_iff_eq.1 h ▸ .bool a
    · next s t => exact beq_iff_eq.1 h ▸ .text s
    · exact .list (equalItems_iff.1 h)
    · next fs gs =>
      have hmap : (map fs).equals (map gs) = true := by rwa [equals]
      exact .map ((equals_map_iff (hv.nodup _ (.refl _)) (hw.nodup _ (.refl _))).1 hmap)
    · obtain ⟨n, hm, hn⟩ := (equalNumbers_iff hv.ne_float hw.ne_float).1 h
      exact .number hm hn
  · intro h
    cases h with
    | undefined => rfl
    | null => rfl
    | bool b => exact beq_self_eq_true b
    | text t => exact beq_self_eq_true t
    | number hm hn =>
      rw [equals_of_integer? hm]
      exact (equalNumbers_iff hv.ne_float hw.ne_float).2 ⟨_, hm, hn⟩
    | list h => exact equalItems_iff.2 h
    | map h => exact (equals_map_iff (hv.nodup _ (.refl _)) (hw.nodup _ (.refl _))).2 h

/-! ### Values that are alike -/

/-- A whole number leads nowhere. -/
theorem child_of_integer? {v : Value} {n : Int} (h : v.integer? = some n) (segment : Text) :
    v.child segment = undefined := by
  cases v with
  | unsigned _ | signed _ => rfl
  | _ => cases h

theorem items?_of_integer? {v : Value} {n : Int} (h : v.integer? = some n) : v.items? = none := by
  cases v with
  | unsigned _ | signed _ => rfl
  | _ => cases h

/-- A condition on a whole number holds if that is not zero. -/
theorem isTruthy_of_integer? {v : Value} {n : Int} (h : v.integer? = some n) :
    v.isTruthy = decide (n ≠ 0) := by
  cases v with
  | unsigned m =>
    obtain rfl := Option.some.inj h
    rw [isTruthy, Bool.eq_iff_iff]
    simp [← UInt64.toNat_inj]
  | signed m =>
    obtain rfl := Option.some.inj h
    rw [isTruthy, Bool.eq_iff_iff]
    simp [← Int64.toInt_inj]
  | _ => cases h

namespace AlikeBy

variable {r s : Value → Value → Prop} {u v w : Value}

/-- What is compared is held by the values, and only there a relation has to imply the other. -/
theorem imp (h : AlikeBy r v w) (himp : ∀ a ∈ v.parts, ∀ b ∈ w.parts, r a b → s a b) :
    AlikeBy s v w := by
  cases h with
  | undefined => exact .undefined
  | null => exact .null
  | bool b => exact .bool b
  | text t => exact .text t
  | number hv hw => exact .number hv hw
  | list h =>
    obtain ⟨hlength, hzip⟩ := List.forall₂_iff_zip.1 h
    refine .list (List.forall₂_iff_zip.2 ⟨hlength, fun hmem => ?_⟩)
    obtain ⟨ha, hb⟩ := List.of_mem_zip hmem
    exact himp _ ha _ hb (hzip hmem)
  | map h =>
    refine .map fun name => (h name).imp fun a ha b hb hab => ?_
    exact himp a (value_mem_parts ha) b (value_mem_parts hb) hab

/-- A value is like itself, if what it holds is related to itself. -/
theorem refl (hv : ∀ x, v ≠ float x) (h : ∀ a ∈ v.parts, r a a) : AlikeBy r v v := by
  cases v with
  | undefined => exact .undefined
  | null => exact .null
  | bool b => exact .bool b
  | unsigned n => exact .number rfl rfl
  | signed n => exact .number rfl rfl
  | float x => exact absurd rfl (hv x)
  | text t => exact .text t
  | list items => exact .list (List.forall₂_same.2 h)
  | map fields =>
    refine .map fun name => ?_
    cases hx : Fields.get? name fields with
    | none => exact .none
    | some x => exact .some (h x (value_mem_parts hx))

/-- Values are alike in both directions. -/
theorem symm (h : AlikeBy r v w) : AlikeBy (flip r) w v := by
  cases h with
  | undefined => exact .undefined
  | null => exact .null
  | bool b => exact .bool b
  | text t => exact .text t
  | number hv hw => exact .number hw hv
  | list h => exact .list (List.Forall₂.flip h)
  | map h => exact .map fun name => (h name).flip

/-- Being alike is transitive, in both relations one after the other. -/
theorem trans (h : AlikeBy r u v) (h' : AlikeBy s v w) : AlikeBy (Relation.Comp r s) u w := by
  -- the middle value is of one kind only, but that it is a number is not read off its form
  cases h with
  | undefined =>
    cases h' with
    | undefined => exact .undefined
    | number hv hw => cases hv
  | null =>
    cases h' with
    | null => exact .null
    | number hv hw => cases hv
  | bool b =>
    cases h' with
    | bool b => exact .bool b
    | number hv hw => cases hv
  | text t =>
    cases h' with
    | text t => exact .text t
    | number hv hw => cases hv
  | number hu hv =>
    cases h' with
    | number hv' hw =>
      obtain rfl := Option.some.inj (hv.symm.trans hv')
      exact .number hu hw
    | undefined | null | bool _ | text _ | list _ | map _ => cases hv
  | list h =>
    cases h' with
    | list h' => exact .list (h.comp h')
    | number hv hw => cases hv
  | map h =>
    cases h' with
    | map h' => exact .map fun name => (h name).comp (h' name)
    | number hv hw => cases hv

/-- **What a segment leads to** is related, or nothing on both sides. -/
theorem child (h : AlikeBy r v w) (hnone : r Value.undefined Value.undefined) (segment : Text) :
    r (v.child segment) (w.child segment) := by
  cases h with
  | undefined | null | bool _ | text _ => exact hnone
  | number hv hw =>
    rw [child_of_integer? hv, child_of_integer? hw]
    exact hnone
  | list h =>
    simp only [Value.child]
    cases position? segment with
    | none => exact hnone
    | some i => exact (h.getElem? i).getD hnone
  | map h => exact (h segment).getD hnone

/-- Conditions hold of both values, or of none. -/
theorem isTruthy_eq (h : AlikeBy r v w) : v.isTruthy = w.isTruthy := by
  cases h with
  | undefined | null | bool _ | text _ | map _ => rfl
  | number hv hw => rw [isTruthy_of_integer? hv, isTruthy_of_integer? hw]
  | list h => cases h <;> rfl

/-- Both values are lists, which are equally long, or none is. -/
theorem length_items?_eq (h : AlikeBy r v w) :
    v.items?.map List.length = w.items?.map List.length := by
  cases h with
  | undefined | null | bool _ | text _ | map _ => rfl
  | number hv hw => rw [items?_of_integer? hv, items?_of_integer? hw]
  | list h => exact congrArg some h.length_eq

end AlikeBy

/-! ### Equality -/

/-- What a segment leads to is held by the value, or nothing. -/
theorem IsExact.child {v : Value} (h : v.IsExact) (segment : Text) : (v.child segment).IsExact := by
  have hundefined : undefined.IsExact := isExact_iff.2 ⟨nofun, nofun, nofun⟩
  cases v with
  -- the child is a part, or undefined
  | list items =>
    rw [Value.child]
    cases hitem : (position? segment).bind (items[·]?) with
    | none => exact hundefined
    | some w =>
      obtain ⟨i, -, hi⟩ := Option.bind_eq_some_iff.1 hitem
      exact h.of_mem_parts (List.mem_of_getElem? hi)
  | map fields =>
    rw [Value.child]
    cases hfield : Fields.get? segment fields with
    | none => exact hundefined
    | some w => exact h.of_mem_parts (value_mem_parts hfield)
  | _ => exact hundefined

theorem equals_refl {v : Value} (hv : v.IsExact) : AreEqual v v := by
  induction v using Parts.induction sizeOf_lt_of_mem_parts with
  | step v ih =>
    refine (equals_iff_alikeBy hv hv).2 (.refl hv.ne_float ?_)
    intro a ha
    exact ih a ha (hv.of_mem_parts ha)

theorem equals_symm {v w : Value} (hv : v.IsExact) (hw : w.IsExact) (h : AreEqual v w) :
    AreEqual w v := by
  induction v using Parts.induction sizeOf_lt_of_mem_parts generalizing w with
  | step v ih =>
    have halike := (equals_iff_alikeBy hv hw).1 h
    -- the induction is on the first value, and turned round it is the second one
    refine (equals_iff_alikeBy hw hv).2 (halike.symm.imp ?_)
    intro b hb a ha hab
    exact ih a ha (hv.of_mem_parts ha) (hw.of_mem_parts hb) hab

theorem equals_trans {u v w : Value} (hu : u.IsExact) (hv : v.IsExact) (hw : w.IsExact)
    (huv : AreEqual u v) (hvw : AreEqual v w) : AreEqual u w := by
  induction u using Parts.induction sizeOf_lt_of_mem_parts generalizing v w with
  | step u ih =>
    -- what the middle value holds is exact, too
    have hfirst : AlikeBy (fun a b => b.IsExact ∧ AreEqual a b) u v :=
      ((equals_iff_alikeBy hu hv).1 huv).imp fun a _ b hb hab => ⟨hv.of_mem_parts hb, hab⟩
    have hsecond := (equals_iff_alikeBy hv hw).1 hvw
    refine (equals_iff_alikeBy hu hw).2 ((hfirst.trans hsecond).imp ?_)
    rintro a ha c hc ⟨b, ⟨hb, hab⟩, hbc⟩
    exact ih a ha (hu.of_mem_parts ha) hb (hw.of_mem_parts hc) hab hbc

/-- **Equal values** lead to equal values along every path. -/
theorem equals_lookup {v w : Value} (hv : v.IsExact) (hw : w.IsExact) (h : AreEqual v w)
    (path : Text) : AreEqual (v.lookup path) (w.lookup path) := by
  rw [lookup, lookup, descend, descend]
  -- segment by segment; the values on the way are exact and equal
  induction path.pieces '.' generalizing v w with
  | nil => exact h
  | cons segment segments ih =>
    rw [List.foldl_cons, List.foldl_cons]
    refine ih (hv.child segment) (hw.child segment) ?_
    exact ((equals_iff_alikeBy hv hw).1 h).child rfl segment

/-- Mappings with the same fields are equal, whatever the order of these. -/
theorem equals_of_perm {fs gs : List (Text × Value)} (h : (map fs).IsExact) (hperm : gs.Perm fs) :
    AreEqual (map gs) (map fs) := by
  have hgs := h.of_perm hperm
  refine (equals_map_iff (hgs.nodup _ (.refl _)) (h.nodup _ (.refl _))).2 fun name => ?_
  -- a name is bound once, wherever its field stands
  have hsame : Fields.get? name gs = Fields.get? name fs := by
    ext value
    rw [Fields.get?_eq_some_iff (hgs.nodup _ (.refl _)), hperm.mem_iff,
      ← Fields.get?_eq_some_iff (h.nodup _ (.refl _))]
  rw [hsame]
  cases hx : Fields.get? name fs with
  | none => exact .none
  | some x => exact .some (equals_refl (h.of_mem_parts (value_mem_parts hx)))

/-- **Equality of exact values** is an equivalence. A whole number is equal to just those that are
the same number, with or without a sign. Mappings are equal if their look-ups are, and so the order
of their fields makes no difference. Equal values satisfy the same conditions, have as many items if
they are lists, and lead to equal values along every path. -/
theorem equals_equivalence_and_congr {u v w : Value} (hu : u.IsExact) (hv : v.IsExact)
    (hw : w.IsExact) :
    u.equals u = true ∧
    (u.equals v = true → v.equals u = true) ∧
    (u.equals v = true → v.equals w = true → u.equals w = true) ∧
    (∀ n, u.integer? = some n → (u.equals v = true ↔ v.integer? = some n)) ∧
    (∀ fs gs, u = map fs → v = map gs →
      (u.equals v = true ↔
        ∀ name, Option.Rel AreEqual (Fields.get? name fs) (Fields.get? name gs))) ∧
    (∀ fs gs, u = map fs → gs.Perm fs →
      (map gs).equals v = u.equals v ∧ v.equals (map gs) = v.equals u) ∧
    (u.equals v = true →
      u.isTruthy = v.isTruthy ∧ u.items?.map List.length = v.items?.map List.length ∧
      ∀ path, (u.lookup path).equals (v.lookup path) = true) := by
  refine ⟨equals_refl hu, equals_symm hu hv, equals_trans hu hv hw, ?_, ?_, ?_, ?_⟩
  · intro n hn
    rw [equals_of_integer? hn, equalNumbers_iff hu.ne_float hv.ne_float]
    constructor
    · rintro ⟨m, hm, hvm⟩
      rw [hvm, ← hm, hn]
    · exact fun hvn => ⟨n, hn, hvn⟩
  · rintro fs gs rfl rfl
    exact equals_map_iff (hu.nodup _ (.refl _)) (hv.nodup _ (.refl _))
  · rintro fs gs rfl hperm
    -- a value that is equal can take the place of the other on each side
    have hgs := hu.of_perm hperm
    have hsame := equals_of_perm hu hperm
    have hback := equals_symm hgs hu hsame
    constructor
    · exact Bool.eq_iff_iff.2 ⟨equals_trans hu hgs hv hback, equals_trans hgs hu hv hsame⟩
    · exact Bool.eq_iff_iff.2
        ⟨fun h => equals_trans hv hgs hu h hsame, fun h => equals_trans hv hu hgs h hback⟩
  · intro h
    have halike := (equals_iff_alikeBy hu hv).1 h
    exact ⟨halike.isTruthy_eq, halike.length_items?_eq, equals_lookup hu hv h⟩

/-- A number and a list, by their names. -/
def numberAndList : Value :=
  .map [(['n'], .unsigned 1), (['l'], .list [.text ['x'], .null])]

/-- The same, but the other way round, and the number is of a type with a sign. -/
def listAndNumber : Value :=
  .map [(['l'], .list [.text ['x'], .null]), (['n'], .signed 1)]

theorem isExact_numberAndList : numberAndList.IsExact ∧ listAndNumber.IsExact := by
  have hleaf : (text ['x']).IsExact ∧ Value.null.IsExact ∧ (unsigned 1).IsExact ∧
      (signed 1).IsExact :=
    ⟨isExact_iff.2 ⟨nofun, nofun, nofun⟩, isExact_iff.2 ⟨nofun, nofun, nofun⟩,
      isExact_iff.2 ⟨nofun, nofun, nofun⟩, isExact_iff.2 ⟨nofun, nofun, nofun⟩⟩
  obtain ⟨htext, hnull, hunsigned, hsigned⟩ := hleaf
  have hlist : (list [.text ['x'], .null]).IsExact :=
    isExact_iff.2 ⟨nofun, nofun, by simp [parts, htext, hnull]⟩
  -- the names in both maps are distinct
  constructor
  · refine isExact_iff.2 ⟨nofun, ?_, by simp [numberAndList, parts, hlist, hunsigned]⟩
    rintro fields heq
    obtain rfl := Value.map.inj heq
    decide
  · refine isExact_iff.2 ⟨nofun, ?_, by simp [listAndNumber, parts, hlist, hsigned]⟩
    rintro fields heq
    obtain rfl := Value.map.inj heq
    decide

/-- The two are equal, in both directions, and so is what they hold. -/
theorem equals_equivalence_and_congr_listAndNumber :
    numberAndList.IsExact ∧ listAndNumber.IsExact ∧ numberAndList.equals listAndNumber = true ∧
      listAndNumber.equals numberAndList = true ∧
      (numberAndList.lookup ['l', '.', '0']).equals (listAndNumber.lookup ['l', '.', '0'])
        = true := by
  obtain ⟨hu, hv⟩ := isExact_numberAndList
  have hequal : numberAndList.equals listAndNumber = true := by cbv
  obtain ⟨-, hsymm, -, -, -, -, hcongr⟩ := equals_equivalence_and_congr hu hv hu
  exact ⟨hu, hv, hequal, hsymm hequal, (hcongr hequal).2.2 _⟩

end Stencil.Value
