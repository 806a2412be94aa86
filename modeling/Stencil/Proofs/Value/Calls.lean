import Mathlib.Logic.Relation
import Stencil.Proofs.Value.Parts
import Stencil.Value.Datum

/-!
# What a program does to describe a datum

A program describes a datum by one call after the other, and any of these can be at fault: the
program fails by itself, it gives a key that cannot be a name, or it gives a value of a mapping
without a key. `Datum.calls` lists what is done, at every depth and in order, and `Call.fault?` says
of each call by itself whether it is at fault. The conversion of the datum goes through the same
calls, and stops at the first fault:

* `Datum.refusal?_toValue` — the error is that of the first call that is at fault;
* `Datum.exists_toValue_iff_calls` — so a datum becomes a value if and only if none is.

What is done for a key is done for the datum (`Datum.calls_subset_of_key_mem`), so a key of an
accepted datum has a value, too.
-/

namespace Stencil

/-! ### Parts -/

namespace Datum

/-- The data of which a datum is made up. -/
def parts : Datum → List Datum
  | wrapped datum | variant _ datum => [datum]
  | sequence items => items
  | record fields => fields.map (·.2)
  | mapping calls => calls.map (·.2)
  | _ => []

theorem sizeOf_lt_of_mem_parts {d x : Datum} (h : x ∈ d.parts) : sizeOf x < sizeOf d := by
  cases d with
  | wrapped datum =>
    obtain rfl := List.mem_singleton.1 h
    simp
  | variant name datum =>
    obtain rfl := List.mem_singleton.1 h
    simp only [variant.sizeOf_spec]
    omega
  | sequence items =>
    have hitem : sizeOf x < sizeOf items := List.sizeOf_lt_of_mem h
    simp only [sequence.sizeOf_spec]
    omega
  | record fields =>
    have hfield : sizeOf x < sizeOf fields := sizeOf_lt_of_mem_map_snd h
    simp only [record.sizeOf_spec]
    omega
  | mapping calls =>
    have hcall : sizeOf x < sizeOf calls := sizeOf_lt_of_mem_map_snd h
    simp only [mapping.sizeOf_spec]
    omega
  | _ => exact absurd h List.not_mem_nil

/-- Whether `x` **stands within** `d`, at some depth; a datum stands within itself. -/
abbrev Within (x d : Datum) : Prop :=
  Parts.Within parts x d

end Datum

/-! ### What a program does -/

namespace Datum

/-- One of the things that a program does to describe a datum, as far as the datum may be refused
for it. -/
inductive Call where
  /-- It fails by itself. -/
  | failure (message : Text)
  /-- It gives a key of a mapping. -/
  | key (datum : Datum)
  /-- It gives a value of a mapping, after a key that no value has had yet, or without one. -/
  | value (hasKey : Bool)

end Datum

mutual

/-- **All that a program does** to describe a datum, at every depth and in order. -/
def Datum.calls : Datum → List Datum.Call
  | .wrapped datum => datum.calls
  | .sequence items => callsOfItems items
  | .record fields => callsOfFields fields
  | .mapping calls => callsOfMapping false calls
  | .variant _ datum => datum.calls
  | .failure message => [.failure message]
  | _ => []

/-- What it does for the items of a sequence. -/
def callsOfItems : List Datum → List Datum.Call
  | [] => []
  | item :: rest => item.calls ++ callsOfItems rest

/-- What it does for the fields of a record. -/
def callsOfFields : List (Text × Datum) → List Datum.Call
  | [] => []
  | (_, datum) :: rest => datum.calls ++ callsOfFields rest

/-- What it does for the keys and the values of a mapping; `hasKey` says whether a key waits. -/
def callsOfMapping (hasKey : Bool) : List (MapRole × Datum) → List Datum.Call
  | [] => []
  | (.key, datum) :: rest => .key datum :: (datum.calls ++ callsOfMapping true rest)
  | (.value, datum) :: rest => .value hasKey :: (datum.calls ++ callsOfMapping false rest)

end

/-- Whether a value can be a key: it is a text, a truth value or a whole number. -/
def Value.isKey : Value → Bool
  | text _ | bool _ | unsigned _ | signed _ => true
  | _ => false

/-- What is wrong with something that a program does, taken by itself. -/
def Datum.Call.fault? : Datum.Call → Option DatumError
  | failure message => some (.failed message)
  | key datum =>
    match datum.toValue with
    | .ok v => if v.isKey then none else some (.keyType v.typeName)
    | .error _ => none
  | value hasKey => if hasKey then none else some .valueWithoutKey

/-- The first fault in what a program does to describe a datum. -/
def Datum.firstFault? (d : Datum) : Option DatumError :=
  d.calls.findSome? Call.fault?

/-! ### Refusals -/

/-- The error with which a conversion ends, if it does. -/
def refusal? {α : Type} : Except DatumError α → Option DatumError
  | .ok _ => none
  | .error e => some e

theorem refusal?_eq_some_iff {α : Type} {x : Except DatumError α} {e : DatumError} :
    refusal? x = some e ↔ x = .error e := by
  cases x with
  | ok a =>
    constructor <;> intro h <;> cases h
  | error e' => rw [refusal?, Option.some.injEq, Except.error.injEq]

theorem refusal?_bind {α β : Type} (x : Except DatumError α) (f : α → Except DatumError β)
    (later : Option DatumError) (h : ∀ a, x = .ok a → refusal? (f a) = later) :
    refusal? (x >>= f) = (refusal? x).or later := by
  cases x with
  | ok a => exact h a rfl
  | error e => rfl

theorem Value.asKey_eq (v : Value) :
    v.asKey = if v.isKey then .ok v.printed else .error (.keyType v.typeName) := by
  cases v <;> rfl

theorem refusal?_itemsToValues {items : List Datum}
    (h : ∀ x ∈ items, refusal? x.toValue = x.firstFault?) :
    refusal? (itemsToValues items) = (callsOfItems items).findSome? Datum.Call.fault? := by
  induction items with
  | nil => rfl
  | cons x items ih =>
    obtain ⟨hx, hitems⟩ := List.forall_mem_cons.1 h
    rw [itemsToValues, callsOfItems, List.findSome?_append]
    rw [refusal?_bind _ _ (refusal? (itemsToValues items)), hx, ih hitems]
    · rfl
    · intro v _
      cases itemsToValues items <;> rfl

theorem refusal?_fieldsToValues {fields : List (Text × Datum)} (before : List (Text × Value))
    (h : ∀ x ∈ fields.map (·.2), refusal? x.toValue = x.firstFault?) :
    refusal? (fieldsToValues before fields)
      = (callsOfFields fields).findSome? Datum.Call.fault? := by
  induction fields generalizing before with
  | nil => rfl
  | cons field fields ih =>
    obtain ⟨name, x⟩ := field
    obtain ⟨hx, hfields⟩ := List.forall_mem_cons.1 h
    rw [fieldsToValues, callsOfFields, List.findSome?_append]
    rw [refusal?_bind _ _ _ fun v _ => ih _ hfields, hx]
    rfl

theorem refusal?_callsToFields {calls : List (MapRole × Datum)} (state : OpenMap)
    (h : ∀ x ∈ calls.map (·.2), refusal? x.toValue = x.firstFault?) :
    refusal? (callsToFields state calls)
      = (callsOfMapping state.key.isSome calls).findSome? Datum.Call.fault? := by
  induction calls generalizing state with
  | nil => rfl
  | cons call calls ih =>
    obtain ⟨role, x⟩ := call
    obtain ⟨hx, hcalls⟩ := List.forall_mem_cons.1 h
    cases role with
    | key =>
      have hrest (name : Text) : refusal? (callsToFields { state with key := some name } calls)
          = (callsOfMapping true calls).findSome? Datum.Call.fault? := ih _ hcalls
      have hinner : x.calls.findSome? Datum.Call.fault? = refusal? x.toValue := hx.symm
      rw [callsToFields, callsOfMapping, List.findSome?_cons, List.findSome?_append, hinner,
        Datum.Call.fault?]
      cases x.toValue with
      -- a key is at fault by itself only if nothing is wrong in it
      | error e => rfl
      | ok v =>
        change refusal? (v.asKey >>= _) = _
        simp only
        rw [Value.asKey_eq]
        cases v.isKey with
        | true => exact hrest _
        | false => rfl
    | value =>
      rw [callsToFields, callsOfMapping, List.findSome?_cons, List.findSome?_append]
      cases hkey : state.key with
      -- without a key the value is not even looked at
      | none => rfl
      | some key =>
        have hrest (v : Value) :
            refusal? (callsToFields ⟨Fields.set key v state.fields, none⟩ calls)
              = (callsOfMapping false calls).findSome? Datum.Call.fault? :=
          ih ⟨_, none⟩ hcalls
        simp only
        rw [refusal?_bind _ _ _ fun v _ => hrest v, hx]
        rfl

/-- **A datum is refused** for the first fault in what the program does. -/
theorem Datum.refusal?_toValue (d : Datum) : refusal? d.toValue = d.firstFault? := by
  induction d using Parts.induction Datum.sizeOf_lt_of_mem_parts with
  | step d ih =>
    rw [firstFault?]
    -- what is put around a value that has been converted cannot be refused any more
    cases d with
    | wrapped datum =>
      rw [toValue, calls]
      exact ih datum List.mem_cons_self
    | variant name datum =>
      rw [toValue, calls, refusal?_bind _ _ none, ih datum List.mem_cons_self, Option.or_none]
      · rfl
      · exact fun v _ => rfl
    | sequence items =>
      rw [toValue, calls, refusal?_bind _ _ none, Option.or_none]
      · exact refusal?_itemsToValues ih
      · exact fun v _ => rfl
    | record fields =>
      rw [toValue, calls, refusal?_bind _ _ none, Option.or_none]
      · exact refusal?_fieldsToValues [] ih
      · exact fun v _ => rfl
    | mapping calls =>
      rw [toValue, Datum.calls, refusal?_bind _ _ none, Option.or_none]
      · exact refusal?_callsToFields ⟨[], none⟩ ih
      · exact fun v _ => rfl
    | _ => rfl

/-! ### Keys -/

theorem mem_callsOfItems {items : List Datum} {c : Datum.Call} :
    c ∈ callsOfItems items ↔ ∃ x ∈ items, c ∈ x.calls := by
  induction items with
  | nil => simp [callsOfItems]
  | cons x items ih => simp [callsOfItems, ih]

theorem mem_callsOfFields {fields : List (Text × Datum)} {c : Datum.Call} :
    c ∈ callsOfFields fields ↔ ∃ x ∈ fields.map (·.2), c ∈ x.calls := by
  induction fields with
  | nil => simp [callsOfFields]
  | cons field fields ih => simp [callsOfFields, ih]

theorem mem_callsOfMapping {hasKey : Bool} {calls : List (MapRole × Datum)} {x : Datum}
    {c : Datum.Call} (hx : x ∈ calls.map (·.2)) (hc : c ∈ x.calls) :
    c ∈ callsOfMapping hasKey calls := by
  induction calls generalizing hasKey with
  | nil => cases hx
  | cons call calls ih =>
    obtain ⟨role, y⟩ := call
    rcases List.mem_cons.1 hx with rfl | hlater
    · cases role <;> exact List.mem_cons_of_mem _ (List.mem_append_left _ hc)
    · cases role <;> exact List.mem_cons_of_mem _ (List.mem_append_right _ (ih hlater))

theorem of_key_mem_callsOfMapping {hasKey : Bool} {calls : List (MapRole × Datum)} {k : Datum}
    (h : .key k ∈ callsOfMapping hasKey calls) :
    k ∈ calls.map (·.2) ∨ ∃ x ∈ calls.map (·.2), .key k ∈ x.calls := by
  induction calls generalizing hasKey with
  | nil => cases h
  | cons call calls ih =>
    obtain ⟨role, y⟩ := call
    -- a key is called in a part, or behind it
    have hrest {b : Bool} (h : .key k ∈ y.calls ++ callsOfMapping b calls) :
        k ∈ y :: calls.map (·.2) ∨ ∃ x ∈ y :: calls.map (·.2), .key k ∈ x.calls := by
      rcases List.mem_append.1 h with h | h
      · exact .inr ⟨y, List.mem_cons_self, h⟩
      · refine (ih h).imp (List.mem_cons_of_mem y) ?_
        rintro ⟨x, hx, hkey⟩
        exact ⟨x, List.mem_cons_of_mem y hx, hkey⟩
    cases role with
    | key =>
      rcases List.mem_cons.1 h with heq | h
      · cases heq
        exact .inl List.mem_cons_self
      · exact hrest h
    | value =>
      rcases List.mem_cons.1 h with heq | h
      · cases heq
      · exact hrest h

namespace Datum

/-- What the program does for a part, it does for the datum. -/
theorem calls_subset_of_mem_parts {x d : Datum} (hx : x ∈ d.parts) : x.calls ⊆ d.calls := by
  intro c hc
  cases d with
  | wrapped datum | variant name datum =>
    obtain rfl := List.mem_singleton.1 hx
    rwa [calls]
  -- the calls for the parts come one after the other among those for the whole
  | sequence items =>
    rw [calls]
    exact mem_callsOfItems.2 ⟨x, hx, hc⟩
  | record fields =>
    rw [calls]
    exact mem_callsOfFields.2 ⟨x, hx, hc⟩
  | mapping calls' =>
    rw [calls]
    exact mem_callsOfMapping hx hc
  | _ => cases hx

/-- A key is a part of the datum, or it is given for a part. -/
theorem of_key_mem_calls {d k : Datum} (h : .key k ∈ d.calls) :
    k ∈ d.parts ∨ ∃ x ∈ d.parts, .key k ∈ x.calls := by
  cases d with
  | wrapped datum | variant name datum =>
    rw [calls] at h
    exact .inr ⟨datum, List.mem_cons_self, h⟩
  | sequence items =>
    rw [calls] at h
    exact .inr (mem_callsOfItems.1 h)
  | record fields =>
    rw [calls] at h
    exact .inr (mem_callsOfFields.1 h)
  | mapping calls' =>
    rw [calls] at h
    exact of_key_mem_callsOfMapping h
  -- anything else calls no key
  | failure message =>
    rw [calls] at h
    cases List.mem_singleton.1 h
  | _ => cases h

/-- What the program does for a key, it does for the datum. -/
theorem calls_subset_of_key_mem {d k : Datum} (h : .key k ∈ d.calls) : k.calls ⊆ d.calls := by
  induction d using Parts.induction sizeOf_lt_of_mem_parts with
  | step d ih =>
    rcases of_key_mem_calls h with hk | ⟨x, hx, hkey⟩
    · exact calls_subset_of_mem_parts hk
    · exact List.Subset.trans (ih x hx hkey) (calls_subset_of_mem_parts hx)

theorem exists_toValue_iff {d : Datum} :
    (∃ v, d.toValue = .ok v) ↔ ∀ c ∈ d.calls, c.fault? = none := by
  rw [← List.findSome?_eq_none_iff, ← firstFault?, ← refusal?_toValue]
  cases d.toValue with
  | ok v => exact iff_of_true ⟨v, rfl⟩ rfl
  | error e => exact iff_of_false nofun nofun

/-- **A datum becomes a value** if and only if the program does nothing wrong. -/
theorem exists_toValue_iff_calls {d : Datum} :
    (∃ v, d.toValue = .ok v) ↔
      (∀ message, .failure message ∉ d.calls) ∧ .value false ∉ d.calls ∧
      ∀ k, .key k ∈ d.calls → ∃ v, k.toValue = .ok v ∧ v.isKey = true := by
  rw [exists_toValue_iff]
  constructor
  · intro h
    refine ⟨fun message hmem => ?_, fun hmem => ?_, fun k hk => ?_⟩
    · cases h _ hmem
    · cases h _ hmem
    · -- nothing is wrong with what is done for the key, either
      obtain ⟨v, hv⟩ := exists_toValue_iff.2 fun c hc => h c (calls_subset_of_key_mem hk hc)
      have hfault := h _ hk
      rw [Call.fault?, hv] at hfault
      simp only at hfault
      cases hkey : v.isKey with
      | true => exact ⟨v, hv, hkey⟩
      | false =>
        rw [hkey] at hfault
        cases hfault
  · rintro ⟨hfailure, hvalue, hkeys⟩ c hc
    cases c with
    | failure message => exact absurd hc (hfailure message)
    | value hasKey =>
      cases hasKey with
      | true => rfl
      | false => exact absurd hc hvalue
    | key k =>
      obtain ⟨v, hv, hkey⟩ := hkeys k hc
      rw [Call.fault?, hv]
      exact if_pos hkey

end Datum

end Stencil
