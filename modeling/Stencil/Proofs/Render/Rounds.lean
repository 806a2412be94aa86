import Stencil.Proofs.Render.Paths

/-!
# The scopes of a render

A render begins in one scope, and goes from there into rounds over the items of lists. Whatever a
path leads to stands in the values of the scope, so each of these lists stands somewhere in the
values of the first one. A round binds the same names whatever there is around it, so of rounds
inside each other only the innermost one counts. Hence there are no more scopes in a render, by what
their names stand for, than the first one and the items of all lists in it.

* `Scope.length_rounds_le` — the rounds over the lists of a scope are no more than there are items;
* `Scope.rounds_lookup_subset` — what a path leads to brings no other rounds;
* `Scope.IsReachedFrom.iteration` — so a round over a list that a path leads to is, by what its
  names stand for, one of those that begin in the first scope.
-/

namespace Stencil

/-! ### Rounds over lists -/

/-- One **round** over a list: the item, its position, and how many items there are. -/
structure Round where
  item : Value
  index : Nat
  count : Nat

/-- The scope of a round that begins in `s`. -/
def Round.scope (r : Round) (s : Scope) : Scope :=
  .iteration s r.item r.index r.count

/-- The rounds over the items of a list. -/
def roundsOver (items : List Value) : List Round :=
  items.mapIdx fun index item => ⟨item, index, items.length⟩

mutual

/-- The rounds over all the lists inside a value. -/
def Value.rounds : Value → List Round
  | .list items => roundsOver items ++ itemsRounds items
  | .map fields => fieldsRounds fields
  | _ => []

/-- The rounds over all the lists inside the items of a list. -/
def itemsRounds : List Value → List Round
  | [] => []
  | v :: rest => v.rounds ++ itemsRounds rest

/-- The rounds over all the lists inside some fields. -/
def fieldsRounds : List (Text × Value) → List Round
  | [] => []
  | (_, v) :: rest => v.rounds ++ fieldsRounds rest

end

mutual

/-- There are as many as there are items. -/
theorem Value.length_rounds (v : Value) : v.rounds.length = v.itemCount := by
  cases v with
  | list items =>
    rw [Value.rounds, Value.itemCount, List.length_append, roundsOver, List.length_mapIdx,
      length_itemsRounds items]
  | map fields => rw [Value.rounds, Value.itemCount, length_fieldsRounds fields]
  | _ => rfl

theorem length_itemsRounds (items : List Value) :
    (itemsRounds items).length = itemsItemCount items := by
  cases items with
  | nil => rfl
  | cons v rest =>
    rw [itemsRounds, itemsItemCount, List.length_append, v.length_rounds, length_itemsRounds rest]

theorem length_fieldsRounds (fields : List (Text × Value)) :
    (fieldsRounds fields).length = fieldsItemCount fields := by
  cases fields with
  | nil => rfl
  | cons f rest =>
    obtain ⟨name, v⟩ := f
    rw [fieldsRounds, fieldsItemCount, List.length_append, v.length_rounds,
      length_fieldsRounds rest]

end

theorem itemsRounds_eq_flatMap (items : List Value) :
    itemsRounds items = items.flatMap Value.rounds := by
  induction items with
  | nil => rfl
  | cons v rest ih => rw [itemsRounds, ih, List.flatMap_cons]

theorem fieldsRounds_eq_flatMap (fields : List (Text × Value)) :
    fieldsRounds fields = (fields.map (·.2)).flatMap Value.rounds := by
  induction fields with
  | nil => rfl
  | cons f rest ih => rw [fieldsRounds, ih, List.map_cons, List.flatMap_cons]

namespace Value

variable {v w : Value}

/-- A part of a value has no rounds but those of the value. -/
theorem rounds_subset_of_mem_parts (h : w ∈ v.parts) : w.rounds ⊆ v.rounds := by
  intro r hr
  cases v with
  | list items =>
    rw [rounds, itemsRounds_eq_flatMap]
    exact List.mem_append_right _ (List.mem_flatMap.2 ⟨w, h, hr⟩)
  | map fields =>
    rw [rounds, fieldsRounds_eq_flatMap]
    exact List.mem_flatMap.2 ⟨w, h, hr⟩
  | _ => cases h

/-- A round is one over the items of the value itself, or of a part of it. -/
theorem mem_rounds {r : Round} (h : r ∈ v.rounds) :
    r.item ∈ v.parts ∨ ∃ w ∈ v.parts, r ∈ w.rounds := by
  cases v with
  | list items =>
    rw [rounds, itemsRounds_eq_flatMap, List.mem_append, List.mem_flatMap] at h
    refine h.imp_left fun hover => ?_
    obtain ⟨i, hi, rfl⟩ := List.mem_mapIdx.1 hover
    exact List.getElem_mem hi
  | map fields =>
    rw [rounds, fieldsRounds_eq_flatMap] at h
    exact .inr (List.mem_flatMap.1 h)
  | _ => cases h

/-- The item of a round has no rounds but those of the value. -/
theorem rounds_item_subset {r : Round} (h : r ∈ v.rounds) : r.item.rounds ⊆ v.rounds := by
  induction v using Parts.induction sizeOf_lt_of_mem_parts with
  | step v ih =>
    rcases mem_rounds h with hitem | ⟨w, hw, hr⟩
    · exact rounds_subset_of_mem_parts hitem
    · exact List.Subset.trans (ih w hw hr) (rounds_subset_of_mem_parts hw)

/-- A segment of a path leads to a part of the value, or to nothing. -/
theorem child_mem_parts (v : Value) (segment : Text) :
    v.child segment ∈ v.parts ∨ v.child segment = .undefined := by
  -- only a map and a list have anything in them
  cases v with
  | map fields =>
    rw [child]
    cases hget : Fields.get? segment fields with
    | none => exact .inr rfl
    | some w => exact .inl (List.mem_map.2 ⟨_, Fields.mem_of_get? hget, rfl⟩)
  | list items =>
    rw [child]
    cases hget : (position? segment).bind (items[·]?) with
    | none => exact .inr rfl
    | some w =>
      obtain ⟨i, -, hi⟩ := Option.bind_eq_some_iff.1 hget
      exact .inl (List.mem_of_getElem? hi)
  | _ => exact .inr rfl

/-- **What a path leads to** has no rounds but those of the value. -/
theorem rounds_descend_subset (v : Value) (segments : List Text) :
    (v.descend segments).rounds ⊆ v.rounds := by
  induction segments generalizing v with
  | nil => exact List.Subset.refl _
  | cons segment segments ih =>
    refine List.Subset.trans (ih (v.child segment)) ?_
    rcases v.child_mem_parts segment with hpart | hnone
    · exact rounds_subset_of_mem_parts hpart
    · rw [hnone]
      exact List.nil_subset _

end Value

/-! ### Rounds of a scope -/

namespace Scope

/-- The rounds over all lists that a scope can reach. -/
def rounds : Scope → List Round
  | root page globals => fieldsRounds (globals.extend page).entries
  | iteration outer item _ _ => outer.rounds ++ item.rounds

/-- There are **no more rounds than items**. -/
theorem length_rounds_le (s : Scope) : s.rounds.length ≤ s.itemCount := by
  induction s with
  | root page globals =>
    rw [rounds, itemCount, length_fieldsRounds]
  | iteration outer item index count ih =>
    rw [rounds, itemCount, List.length_append, item.length_rounds]
    omega

/-- What a round binds is its item, or has no rounds. -/
theorem rounds_bound?_subset {item v : Value} {index count : Nat} {name : Text}
    (h : bound? item index count name = some v) : v.rounds ⊆ item.rounds := by
  rw [bound?_eq_get?] at h
  have hfield := Fields.mem_of_get? h
  simp only [roundFields, List.mem_cons, Prod.mk.injEq, List.not_mem_nil, or_false] at hfield
  rcases hfield with ⟨-, rfl⟩ | ⟨-, rfl⟩ | ⟨-, rfl⟩ | ⟨-, rfl⟩
  · exact List.Subset.refl _
  · exact List.nil_subset _
  · exact List.nil_subset _
  · exact List.nil_subset _

/-- What a name stands for has no rounds but those of the scope. -/
theorem rounds_get_subset (s : Scope) (name : Text) : (s.get name).rounds ⊆ s.rounds := by
  induction s with
  | root page globals =>
    rw [get, ← NameMap.get?_extend, rounds]
    cases hget : (globals.extend page).get? name with
    | none => exact List.nil_subset _
    | some v =>
      intro r hr
      rw [fieldsRounds_eq_flatMap]
      exact List.mem_flatMap.2 ⟨v, List.mem_map_of_mem (NameMap.mem_of_find? hget), hr⟩
  | iteration outer item index count ih =>
    rw [get, rounds]
    -- what the round binds stands in its item, and any other name is looked up outside
    cases hbound : bound? item index count name with
    | none => exact List.Subset.trans ih (List.subset_append_left ..)
    | some v =>
      exact List.Subset.trans (rounds_bound?_subset hbound) (List.subset_append_right ..)

/-- **What a path leads to** has no rounds but those of the scope. -/
theorem rounds_lookup_subset (s : Scope) (path : Text) : (s.lookup path).rounds ⊆ s.rounds := by
  rw [lookup]
  cases path.pieces '.' with
  | nil => exact List.nil_subset _
  | cons first rest =>
    exact List.Subset.trans (Value.rounds_descend_subset _ rest) (s.rounds_get_subset first)

/-- The item of a round has no rounds but those of the scope. -/
theorem rounds_item_subset {s : Scope} {r : Round} (h : r ∈ s.rounds) :
    r.item.rounds ⊆ s.rounds := by
  induction s with
  | root page globals =>
    rw [rounds, fieldsRounds_eq_flatMap] at h ⊢
    obtain ⟨v, hv, hr⟩ := List.mem_flatMap.1 h
    exact fun r' hr' => List.mem_flatMap.2 ⟨v, hv, Value.rounds_item_subset hr hr'⟩
  | iteration outer item index count ih =>
    rw [rounds] at h ⊢
    -- a round of the outer scope, or one over the item of this one
    rcases List.mem_append.1 h with hr | hr
    · exact List.Subset.trans (ih hr) (List.subset_append_left ..)
    · exact List.Subset.trans (Value.rounds_item_subset hr) (List.subset_append_right ..)

/-! ### Scopes by what their names stand for -/

/-- Whether every name stands for the same in two scopes. -/
abbrev Alike (s s' : Scope) : Prop :=
  s.AgreeOn (fun _ => True) s'

/-- The scope `s`, and those of one round in it. -/
def rangeOf (s : Scope) : List Scope :=
  s :: s.rounds.map (·.scope s)

/-- Whether a scope is, by what its names stand for, one to which a **render that begins in `s`**
may come. -/
def IsReachedFrom (s s' : Scope) : Prop :=
  ∃ x ∈ s.rangeOf, s'.Alike x

theorem length_rangeOf_le (s : Scope) : s.rangeOf.length ≤ s.itemCount + 1 := by
  rw [rangeOf, List.length_cons, List.length_map]
  exact Nat.succ_le_succ s.length_rounds_le

theorem isReachedFrom_self (s : Scope) : IsReachedFrom s s :=
  ⟨s, List.mem_cons_self, fun _ _ => rfl⟩

variable {s s' : Scope}

/-- One round in a scope has no rounds but those of the scope. -/
theorem rounds_subset_of_mem_rangeOf {x : Scope} (h : x ∈ s.rangeOf) : x.rounds ⊆ s.rounds := by
  rcases List.mem_cons.1 h with rfl | h
  · exact List.Subset.refl _
  · obtain ⟨r, hr, rfl⟩ := List.mem_map.1 h
    exact List.append_subset.2 ⟨List.Subset.refl _, rounds_item_subset hr⟩

/-- Outside of what a round binds, it does not matter which one it is. -/
theorem get_of_mem_rangeOf {x : Scope} (h : x ∈ s.rangeOf) {name : Text}
    (hname : name ∉ roundNames) : x.get name = s.get name := by
  rcases List.mem_cons.1 h with rfl | h
  · rfl
  · obtain ⟨r, -, rfl⟩ := List.mem_map.1 h
    exact (get_eq_outermost hname _).trans (get_eq_outermost hname s).symm

/-- **A further round** over a list that a path leads to is, by what its names stand for, one in the
first scope. -/
theorem IsReachedFrom.iteration (h : IsReachedFrom s s') {path : Text} {items : List Value}
    (hitems : (s'.lookup path).items? = some items) {r : Round} (hr : r ∈ roundsOver items) :
    IsReachedFrom s (r.scope s') := by
  obtain ⟨x, hx, halike⟩ := h
  -- the list stands somewhere in the first scope
  have hround : r ∈ s.rounds := by
    have hlist : s'.lookup path = .list items := by
      cases hvalue : s'.lookup path with
      | list _ =>
        rw [hvalue] at hitems
        exact congrArg Value.list (Option.some.inj hitems)
      | _ =>
        rw [hvalue] at hitems
        cases hitems
    have hpath : x.lookup path = .list items := (halike.lookup trivial).symm.trans hlist
    refine rounds_subset_of_mem_rangeOf hx (x.rounds_lookup_subset path ?_)
    rw [hpath, Value.rounds]
    exact List.mem_append_left _ hr
  refine ⟨r.scope s, List.mem_cons_of_mem _ (List.mem_map_of_mem hround), fun name _ => ?_⟩
  rw [Round.scope, Round.scope, get, get]
  by_cases hname : name ∈ roundNames
  · -- the round binds the name itself
    have hsome : bound? r.item r.index r.count name ≠ none :=
      fun hnone => bound?_eq_none_iff.1 hnone hname
    obtain ⟨v, hv⟩ := Option.ne_none_iff_exists'.1 hsome
    rw [hv, Option.getD_some, Option.getD_some]
  · rw [halike name trivial, get_of_mem_rangeOf hx hname]

end Scope

end Stencil
