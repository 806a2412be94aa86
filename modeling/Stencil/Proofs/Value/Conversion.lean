import Mathlib.Data.List.Forall2
import Stencil.Proofs.Value.Calls
import Stencil.Proofs.Value.Fields

/-!
# What a datum becomes

An accepted datum becomes a value, and every mapping in that value is made of named values which
some datum gives: a record by its fields, a mapping by its keys, a variant by its name
(`Datum.Gives`). A name may be given more than once, and by keys of different types that have the
same text.

* `Datum.outcome_of_toValue` — what becomes of a datum in one step, for all data alike;
* `Datum.exists_gives_of_toValue` — a mapping gathers the named values that its datum gives;
* `Datum.exists_within_of_within` — whatever stands in the value, at any depth, is what a datum
  within becomes, or one of the numbers that bytes are. So nothing is undefined in it.

`Datum.toValue_accepts_and_gathers` puts this together with the faults for which a datum is refused.
-/

namespace Stencil

/-! ### Named values -/

theorem bind_eq_ok {ε α β : Type} {x : Except ε α} {f : α → Except ε β} {b : β}
    (h : x >>= f = .ok b) : ∃ a, x = .ok a ∧ f a = .ok b := by
  cases x with
  | ok a => exact ⟨a, rfl, h⟩
  | error e => cases h

/-- The keys and the values of a mapping that belong together: each value with the key just before
it. Here `waiting` is the key that was given last, if no value has followed it. -/
def keyedValues (waiting : Option Datum) : List (MapRole × Datum) → List (Datum × Datum)
  | [] => []
  | (.key, k) :: rest => keyedValues (some k) rest
  | (.value, x) :: rest =>
    match waiting with
    | some k => (k, x) :: keyedValues none rest
    | none => keyedValues none rest

/-- Whether an entry comes from a key and a value: its name is the text of the key. -/
structure IsEntryOf (pair : Datum × Datum) (entry : Text × Value) : Prop where
  name_eq : ∃ k, pair.1.toValue = .ok k ∧ entry.1 = k.printed
  value_eq : pair.2.toValue = .ok entry.2

/-- Whether a datum **gives named values**: those of a record or a variant by their names, and those
of a mapping by their keys. -/
inductive Datum.Gives : Datum → List (Text × Value) → Prop where
  | record {fields : List (Text × Datum)} {entries : List (Text × Value)}
      (h : List.Forall₂ (fun f e => e.1 = f.1 ∧ f.2.toValue = .ok e.2) fields entries) :
    Gives (.record fields) entries
  | mapping {calls : List (MapRole × Datum)} {entries : List (Text × Value)}
      (h : List.Forall₂ IsEntryOf (keyedValues none calls) entries) : Gives (.mapping calls) entries
  | variant {name : Text} {datum : Datum} {v : Value} (h : datum.toValue = .ok v) :
    Gives (.variant name datum) [(name, v)]
  | wrapped {datum : Datum} {entries : List (Text × Value)} (h : Gives datum entries) :
    Gives (.wrapped datum) entries

theorem itemsToValues_eq_ok {items : List Datum} {vs : List Value}
    (h : itemsToValues items = .ok vs) :
    List.Forall₂ (fun x v => x.toValue = .ok v) items vs := by
  induction items generalizing vs with
  | nil =>
    obtain rfl := Except.ok.inj h
    exact .nil
  | cons x items ih =>
    obtain ⟨v, hv, h⟩ := bind_eq_ok h
    obtain ⟨vs', hvs, h⟩ := bind_eq_ok h
    obtain rfl := Except.ok.inj h
    exact .cons hv (ih hvs)

/-- Setting named values, one after the other. -/
abbrev setAll (before entries : List (Text × Value)) : List (Text × Value) :=
  entries.foldl (fun fields e => Fields.set e.1 e.2 fields) before

theorem fieldsToValues_eq_ok {fields : List (Text × Datum)} {before result : List (Text × Value)}
    (h : fieldsToValues before fields = .ok result) :
    ∃ entries, List.Forall₂ (fun f e => e.1 = f.1 ∧ f.2.toValue = .ok e.2) fields entries ∧
      result = setAll before entries := by
  induction fields generalizing before with
  | nil =>
    obtain rfl := Except.ok.inj h
    exact ⟨[], .nil, rfl⟩
  | cons field fields ih =>
    obtain ⟨v, hv, h⟩ := bind_eq_ok h
    obtain ⟨entries, hentries, rfl⟩ := ih h
    exact ⟨(field.1, v) :: entries, .cons ⟨rfl, hv⟩ hentries, rfl⟩

theorem callsToFields_eq_ok {calls : List (MapRole × Datum)} (state : OpenMap)
    {waiting : Option Datum} {result : List (Text × Value)}
    (hwaiting : Option.Rel (fun name k => ∃ v, k.toValue = .ok v ∧ name = v.printed) state.key
      waiting)
    (h : callsToFields state calls = .ok result) :
    ∃ entries, List.Forall₂ IsEntryOf (keyedValues waiting calls) entries ∧
      result = setAll state.fields entries := by
  induction calls generalizing state waiting with
  | nil =>
    obtain rfl := Except.ok.inj h
    exact ⟨[], .nil, rfl⟩
  | cons call calls ih =>
    obtain ⟨role, x⟩ := call
    cases role with
    | key =>
      obtain ⟨v, hv, h⟩ := bind_eq_ok h
      obtain ⟨name, hname, h⟩ := bind_eq_ok h
      have hprinted : name = v.printed := by
        rw [Value.asKey_eq] at hname
        split at hname
        · exact (Except.ok.inj hname).symm
        · cases hname
      -- the key takes the place of one that may have waited, which is dropped
      exact ih { state with key := some name } (.some ⟨v, hv, hprinted⟩) h
    | value =>
      obtain ⟨fields, key⟩ := state
      cases hwaiting with
      -- a value without a key would have been refused
      | none => cases h
      | @some name k hk =>
        obtain ⟨v, hv, h⟩ := bind_eq_ok h
        obtain ⟨entries, hentries, rfl⟩ := ih ⟨_, none⟩ .none h
        exact ⟨(name, v) :: entries, .cons ⟨hk, hv⟩ hentries, rfl⟩

/-- Whether a datum is not made up of others. -/
def Datum.isPlain : Datum → Bool
  | absent | bool _ | signed _ | unsigned _ | float _ | text _ | bytes _ => true
  | _ => false

/-- **What a datum becomes**, told by one step: a plain one becomes a value that has no parts but
whole numbers, one in a wrapper what it is without it, a sequence becomes a list, and a record, a
mapping or a variant becomes the mapping of the named values that it gives. -/
inductive Datum.Outcome : Datum → Value → Prop where
  | leaf {d : Datum} {v : Value} (hplain : d.isPlain = true) (hdefined : v ≠ .undefined)
      (hmap : ∀ fields, v ≠ .map fields) (hparts : ∀ w ∈ v.parts, ∃ n, w = .unsigned n) :
    Outcome d v
  | wrapped {datum : Datum} {v : Value} (h : datum.toValue = .ok v) : Outcome (.wrapped datum) v
  | list {items : List Datum} {vs : List Value}
      (h : List.Forall₂ (fun x v => x.toValue = .ok v) items vs) :
    Outcome (.sequence items) (.list vs)
  | map {d : Datum} {entries : List (Text × Value)} (h : d.Gives entries) :
    Outcome d (.map (Fields.ofList entries))

theorem Datum.outcome_of_toValue {d : Datum} {v : Value} (h : d.toValue = .ok v) : d.Outcome v := by
  cases d with
  | wrapped datum => exact .wrapped h
  | sequence items =>
    obtain ⟨vs, hvs, h⟩ := bind_eq_ok h
    obtain rfl := Except.ok.inj h
    exact .list (itemsToValues_eq_ok hvs)
  | record fields =>
    obtain ⟨result, hresult, h⟩ := bind_eq_ok h
    obtain rfl := Except.ok.inj h
    obtain ⟨entries, hentries, rfl⟩ := fieldsToValues_eq_ok hresult
    exact .map (.record hentries)
  | mapping calls =>
    obtain ⟨result, hresult, h⟩ := bind_eq_ok h
    obtain rfl := Except.ok.inj h
    obtain ⟨entries, hentries, rfl⟩ := callsToFields_eq_ok ⟨[], none⟩ .none hresult
    exact .map (.mapping hentries)
  | variant name datum =>
    obtain ⟨w, hw, h⟩ := bind_eq_ok h
    obtain rfl := Except.ok.inj h
    exact .map (.variant hw)
  | failure message => cases h
  -- plain data become leaves, and a whole number that is too large becomes a float
  | signed n =>
    obtain rfl := Except.ok.inj h
    rw [Value.ofSigned]
    split <;> exact .leaf rfl nofun nofun nofun
  | unsigned n =>
    obtain rfl := Except.ok.inj h
    rw [Value.ofUnsigned]
    split <;> exact .leaf rfl nofun nofun nofun
  | bytes b =>
    obtain rfl := Except.ok.inj h
    refine .leaf rfl nofun nofun fun w hw => ?_
    obtain ⟨n, -, rfl⟩ := List.mem_map.1 hw
    exact ⟨_, rfl⟩
  | absent | bool _ | float _ | text _ =>
    obtain rfl := Except.ok.inj h
    exact .leaf rfl nofun nofun nofun

namespace Datum

/-- A datum never becomes nothing. -/
theorem toValue_ne_undefined (d : Datum) : d.toValue ≠ .ok .undefined := by
  induction d using Parts.induction sizeOf_lt_of_mem_parts with
  | step d ih =>
    intro h
    cases outcome_of_toValue h with
    | leaf _ hdefined => exact hdefined rfl
    | wrapped h => exact ih _ List.mem_cons_self h

/-- So `undefined` stands for a datum that is refused, and for no other. -/
theorem toValueD_eq_undefined_iff (d : Datum) :
    d.toValueD = .undefined ↔ ∃ e, d.toValue = .error e := by
  rw [toValueD]
  cases hvalue : d.toValue with
  | ok v =>
    constructor
    · rintro rfl
      exact absurd hvalue d.toValue_ne_undefined
    · rintro ⟨e, he⟩
      cases he
  | error e => exact iff_of_true rfl ⟨e, rfl⟩

/-- **A mapping gathers** the named values that the datum gives. -/
theorem exists_gives_of_toValue {d : Datum} {fields : List (Text × Value)}
    (h : d.toValue = .ok (.map fields)) :
    ∃ entries, d.Gives entries ∧ Fields.Gathers entries fields := by
  induction d using Parts.induction sizeOf_lt_of_mem_parts with
  | step d ih =>
    cases outcome_of_toValue h with
    | leaf _ _ hmap => exact absurd rfl (hmap fields)
    | wrapped h =>
      obtain ⟨entries, hgives, hgathers⟩ := ih _ List.mem_cons_self h
      exact ⟨entries, .wrapped hgives, hgathers⟩
    | map hgives => exact ⟨_, hgives, Fields.gathers_ofList _⟩

theorem mem_of_mem_keyedValues {waiting : Option Datum} {calls : List (MapRole × Datum)}
    {pair : Datum × Datum} (h : pair ∈ keyedValues waiting calls) : pair.2 ∈ calls.map (·.2) := by
  induction calls generalizing waiting with
  | nil => cases h
  | cons call calls ih =>
    obtain ⟨role, x⟩ := call
    cases role with
    | key => exact List.mem_cons_of_mem _ (ih h)
    | value =>
      -- a value counts only behind a key
      cases waiting with
      | none => exact List.mem_cons_of_mem _ (ih h)
      | some k =>
        rcases List.mem_cons.1 h with rfl | h
        · exact List.mem_cons_self
        · exact List.mem_cons_of_mem _ (ih h)

/-- A named value is what a datum within becomes. -/
theorem Gives.exists_within {d : Datum} {entries : List (Text × Value)} (h : d.Gives entries)
    {e : Text × Value} (he : e ∈ entries) : ∃ x : Datum, x.Within d ∧ x.toValue = .ok e.2 := by
  induction h with
  | record h =>
    obtain ⟨f, hf, -, hvalue⟩ := h.exists_of_mem_right he
    exact ⟨f.2, (Parts.Within.refl _).of_mem_parts (List.mem_map.2 ⟨f, hf, rfl⟩), hvalue⟩
  | mapping h =>
    obtain ⟨pair, hpair, hentry⟩ := h.exists_of_mem_right he
    have hmem := mem_of_mem_keyedValues hpair
    exact ⟨pair.2, (Parts.Within.refl _).of_mem_parts hmem, hentry.value_eq⟩
  | variant h =>
    obtain rfl := List.mem_singleton.1 he
    exact ⟨_, (Parts.Within.refl _).of_mem_parts List.mem_cons_self, h⟩
  | wrapped h ih =>
    obtain ⟨x, hx, hvalue⟩ := ih he
    exact ⟨x, hx.of_mem_parts List.mem_cons_self, hvalue⟩

/-- What a value holds is what a datum within becomes, or one of the whole numbers that bytes
are. -/
theorem exists_within_of_mem_parts {d : Datum} {v w : Value} (h : d.toValue = .ok v)
    (hw : w ∈ v.parts) : (∃ n, w = .unsigned n) ∨ ∃ x : Datum, x.Within d ∧ x.toValue = .ok w := by
  induction d using Parts.induction sizeOf_lt_of_mem_parts with
  | step d ih =>
    cases outcome_of_toValue h with
    -- the bytes of plain data are numbers, which no datum within stands for
    | leaf _ _ _ hparts => exact .inl (hparts w hw)
    | wrapped h =>
      refine (ih _ List.mem_cons_self h).imp_right ?_
      rintro ⟨x, hx, hvalue⟩
      exact ⟨x, hx.of_mem_parts List.mem_cons_self, hvalue⟩
    | list hitems =>
      obtain ⟨x, hx, hvalue⟩ := hitems.exists_of_mem_right hw
      exact .inr ⟨x, (Parts.Within.refl x).of_mem_parts hx, hvalue⟩
    | @map _ entries hgives =>
      obtain ⟨e, he, rfl⟩ := List.mem_map.1 hw
      exact .inr (hgives.exists_within ((Fields.gathers_ofList entries).subset he))

/-- **At every depth**, what a value holds is what a datum within becomes, or one of the whole
numbers that bytes are. -/
theorem exists_within_of_within {d : Datum} {v w : Value} (h : d.toValue = .ok v)
    (hw : w.Within v) : (∃ n, w = .unsigned n) ∨ ∃ x : Datum, x.Within d ∧ x.toValue = .ok w := by
  induction v using Parts.induction Value.sizeOf_lt_of_mem_parts generalizing d with
  | step v ih =>
    rcases Parts.within_iff.1 hw with rfl | ⟨u, hu, hwithin⟩
    · exact .inr ⟨d, .refl d, h⟩
    · rcases exists_within_of_mem_parts h hu with ⟨n, rfl⟩ | ⟨y, hy, hvalue⟩
      · -- a whole number holds nothing but itself
        rcases Parts.within_iff.1 hwithin with rfl | ⟨_, hmem, -⟩
        · exact .inl ⟨n, rfl⟩
        · exact absurd hmem List.not_mem_nil
      · refine (ih u hu hvalue hwithin).imp_right ?_
        rintro ⟨x, hx, hxvalue⟩
        exact ⟨x, hx.trans hy, hxvalue⟩

/-- Nothing is left out of a value. -/
theorem not_undefined_within {d : Datum} {v : Value} (h : d.toValue = .ok v) :
    ¬ Value.undefined.Within v := by
  intro hw
  rcases exists_within_of_within h hw with ⟨n, hn⟩ | ⟨x, -, hx⟩
  · cases hn
  · exact x.toValue_ne_undefined hx

/-- **A mapping at any depth** is what some datum within becomes. -/
theorem exists_within_of_map_within {d : Datum} {v : Value} {fields : List (Text × Value)}
    (h : d.toValue = .ok v) (hw : (Value.map fields).Within v) :
    ∃ x : Datum, x.Within d ∧ x.toValue = .ok (.map fields) := by
  rcases exists_within_of_within h hw with ⟨n, hn⟩ | hx
  · cases hn
  · exact hx

end Datum

/-- **A datum is accepted** if and only if the program does not fail by itself, gives each value of
a mapping after a key that no value has had yet, and each of its keys becomes a text, a truth value
or a whole number. Otherwise the first fault is the error, in the order of what the program does,
and nothing takes the place of the whole. The value of a datum that is accepted has nothing left out
at any depth. A record, a mapping and a variant become mappings, a sequence becomes a list, and only
plain data become anything else. Each of the mappings in the value is what some datum within
becomes, and a mapping gathers what its datum gives: its names are distinct and come in the order in
which they first occur, each with its last value; keys with the same text are the same name, and a
key that no value follows is dropped. -/
theorem Datum.toValue_accepts_and_gathers (d : Datum) :
    ((∃ v, d.toValue = .ok v) ↔
      (∀ message, .failure message ∉ d.calls) ∧ .value false ∉ d.calls ∧
      ∀ k, .key k ∈ d.calls → ∃ v, k.toValue = .ok v ∧ v.isKey = true) ∧
    (∀ e, d.toValue = .error e ↔ d.calls.findSome? Call.fault? = some e) ∧
    (d.toValueD = .undefined ↔ ∃ e, d.toValue = .error e) ∧
    ∀ v, d.toValue = .ok v →
      d.toValueD = v ∧ ¬ Value.undefined.Within v ∧ d.Outcome v ∧
      (∀ fields, v = .map fields → ∃ entries, d.Gives entries ∧ Fields.Gathers entries fields) ∧
      ∀ fields, (Value.map fields).Within v → ∃ (x : Datum) (entries : List (Text × Value)),
        x.Within d ∧ x.toValue = .ok (.map fields) ∧ x.Gives entries ∧
          Fields.Gathers entries fields := by
  refine ⟨exists_toValue_iff_calls, ?_, d.toValueD_eq_undefined_iff, ?_⟩
  · intro e
    rw [← firstFault?, ← d.refusal?_toValue, refusal?_eq_some_iff]
  · intro v hv
    refine ⟨?_, not_undefined_within hv, outcome_of_toValue hv, ?_, ?_⟩
    · rw [toValueD, hv]
    · rintro fields rfl
      exact exists_gives_of_toValue hv
    -- a mapping anywhere in the value is what a datum within became
    · intro fields hfields
      obtain ⟨x, hx, hvalue⟩ := exists_within_of_map_within hv hfields
      obtain ⟨entries, hgives, hgathers⟩ := exists_gives_of_toValue hvalue
      exact ⟨x, entries, hx, hvalue, hgives, hgathers⟩

-- A truth value and a text are the same key, and the last key has no value.
example : (Datum.mapping [(.key, .bool true), (.value, .text ['a']), (.key, .signed 1),
      (.value, .absent), (.key, .text ['t', 'r', 'u', 'e']), (.value, .text ['b']),
      (.key, .text ['c'])]).toValue
    = .ok (.map [(['t', 'r', 'u', 'e'], .text ['b']), (['1'], .null)]) := by
  cbv

end Stencil
