import Mathlib.Data.List.Forall2
import Stencil.Json.Datum
import Stencil.Proofs.Value.Conversion

/-!
# What a JSON text means

A JSON text means a value: a list means the list of what its items mean, and an object means a
mapping, whose names are those of its members, each once and in the order in which they first occur,
with the meaning of the last member of that name (`JsonTree.Means`). A number is a whole number of
64 bits or a double, as it is read.

* `JsonTree.exists_means_of_toDatum` — valid JSON becomes the value that it means, and is never
  refused on the way.
-/

namespace Stencil

namespace JsonTree

/-- Whether a value **is what a JSON text means**. -/
inductive Means : JsonTree → Value → Prop
  | null : Means null .null
  | bool (b : Bool) : Means (bool b) (.bool b)
  | unsigned {n : JsonNumeral} {k : UInt64} (h : n.toDatum = .ok (.unsigned k.toNat)) :
    Means (number n) (.unsigned k)
  | signed {n : JsonNumeral} {k : Int64} (h : n.toDatum = .ok (.signed k.toInt)) :
    Means (number n) (.signed k)
  | double {n : JsonNumeral} {x : Double} (h : n.toDatum = .ok (.float x)) :
    Means (number n) (.float x)
  | string {s : JsonString} {t : Text} (h : s.text? = some t) : Means (string s) (.text t)
  | array {items : List JsonTree} {vs : List Value} (h : List.Forall₂ Means items vs) :
    Means (array items) (.list vs)
  | object {members : List (JsonString × JsonTree)} {entries fields : List (Text × Value)}
    (hnames : List.Forall₂ (fun m e => m.1.text? = some e.1) members entries)
    (hvalues : List.Forall₂ Means (members.map (·.2)) (entries.map (·.2)))
    (h : Fields.Gathers entries fields) : Means (object members) (.map fields)

/-! ### Induction -/

/-- The JSON texts that a list or an object is made up of. -/
def parts : JsonTree → List JsonTree
  | array items => items
  | object members => members.map (·.2)
  | _ => []

theorem sizeOf_lt_of_mem_parts {tree part : JsonTree} (h : part ∈ tree.parts) :
    sizeOf part < sizeOf tree := by
  cases tree with
  | array items =>
    have hitem : sizeOf part < sizeOf items := List.sizeOf_lt_of_mem h
    simp only [array.sizeOf_spec]
    omega
  | object members =>
    have hmember : sizeOf part < sizeOf members := sizeOf_lt_of_mem_map_snd h
    simp only [object.sizeOf_spec]
    omega
  | _ => exact absurd h List.not_mem_nil

end JsonTree

/-! ### Numbers -/

theorem Scaled.digits_takeWhole_lt {s : Scaled} (h : s.digits < wordCount) (t : Text) :
    (s.takeWhole t).digits < wordCount := by
  induction t generalizing s with
  | nil => exact h
  | cons c t ih =>
    rw [takeWhole]
    split
    · next hlt => exact ih hlt
    · exact h

/-- A number is read as a whole number of 64 bits, or as a double. -/
theorem JsonNumeral.exists_means {n : JsonNumeral} {d : Datum} (h : n.toDatum = .ok d) :
    ∃ v, d.toValue = .ok v ∧ (JsonTree.number n).Means v := by
  have hread := h
  have hdigits : (Scaled.takeWhole ⟨0, 0⟩ n.whole).digits < wordCount :=
    Scaled.digits_takeWhole_lt (by decide) n.whole
  unfold toDatum at h
  simp only at h
  generalize Scaled.takeWhole ⟨0, 0⟩ n.whole = whole at h hdigits
  split at h
  · next hwhole =>
    obtain rfl := Except.ok.inj h
    split
    · next hnegative =>
      -- a negative number has a bound of its own, which is the lowest number of 64 bits
      obtain ⟨hlow, hhigh⟩ := hwhole.2.2.2 hnegative
      rw [if_pos hnegative] at hread
      have hbounds : -0x8000000000000000 ≤ (-whole.digits : Int) ∧
          (-whole.digits : Int) < 0x8000000000000000 := by omega
      have hint : (Int64.ofInt (-whole.digits)).toInt = -whole.digits :=
        Int64.toInt_ofInt_of_le hbounds.1 hbounds.2
      refine ⟨.signed (Int64.ofInt (-whole.digits)), ?_, .signed ?_⟩
      · rw [Datum.toValue, Value.ofSigned, if_pos hbounds]
      · rw [hint, hread]
    · next hpositive =>
      rw [if_neg hpositive] at hread
      have hnat : (UInt64.ofNat whole.digits).toNat = whole.digits :=
        UInt64.toNat_ofNat_of_lt' hdigits
      refine ⟨.unsigned (UInt64.ofNat whole.digits), ?_, .unsigned ?_⟩
      · rw [Datum.toValue, Value.ofUnsigned, if_pos hdigits]
      · rw [hnat, hread]
  · split at h
    · next x hx =>
      obtain rfl := Except.ok.inj h
      exact ⟨_, rfl, .double hread⟩
    · cases h

/-! ### Trees -/

theorem JsonString.toText_eq_ok_iff {s : JsonString} {t : Text} :
    s.toText = .ok t ↔ s.text? = some t := by
  unfold toText
  split
  · next heq => rw [heq, Except.ok.injEq, Option.some.injEq]
  · next heq => rw [heq]; exact iff_of_false nofun nofun

namespace JsonTree

/-- Whether a datum becomes a value, and that is the meaning of a JSON text. -/
def Becomes (tree : JsonTree) (d : Datum) : Prop :=
  ∃ v, d.toValue = .ok v ∧ tree.Means v

theorem exists_values_of_items {items : List JsonTree} {data : List Datum}
    (h : itemsToData items = .ok data)
    (hparts : ∀ t ∈ items, ∀ d, t.toDatumAtAnyDepth = .ok d → t.Becomes d) :
    ∃ vs, itemsToValues data = .ok vs ∧ List.Forall₂ Means items vs := by
  induction items generalizing data with
  | nil =>
    obtain rfl := Except.ok.inj h
    exact ⟨[], rfl, .nil⟩
  | cons t items ih =>
    -- the first item and the others were read one after the other
    obtain ⟨hfirst, hrest⟩ := List.forall_mem_cons.1 hparts
    obtain ⟨d, hd, h⟩ := bind_eq_ok h
    obtain ⟨rest, hdata, h⟩ := bind_eq_ok h
    obtain rfl := Except.ok.inj h
    obtain ⟨v, hv, hmeans⟩ := hfirst d hd
    obtain ⟨vs, hvs, hmeansRest⟩ := ih hdata hrest
    refine ⟨v :: vs, ?_, .cons hmeans hmeansRest⟩
    rw [itemsToValues, hv, hvs]
    rfl

/-- Members lead to fields one after the other: each is a key and then its value. -/
theorem exists_entries_of_members {members : List (JsonString × JsonTree)}
    {calls : List (MapRole × Datum)} (h : membersToCalls members = .ok calls)
    (hparts : ∀ t ∈ members.map (·.2), ∀ d, t.toDatumAtAnyDepth = .ok d → t.Becomes d) :
    ∃ entries : List (Text × Value),
      List.Forall₂ (fun m e => m.1.text? = some e.1) members entries ∧
      List.Forall₂ Means (members.map (·.2)) (entries.map (·.2)) ∧
      ∀ before, callsToFields ⟨before, none⟩ calls = .ok (setAll before entries) := by
  induction members generalizing calls with
  | nil =>
    obtain rfl := Except.ok.inj h
    exact ⟨[], .nil, .nil, fun _ => rfl⟩
  | cons m members ih =>
    obtain ⟨name, t⟩ := m
    obtain ⟨hfirst, hrest⟩ := List.forall_mem_cons.1 hparts
    obtain ⟨key, hkey, h⟩ := bind_eq_ok h
    obtain ⟨d, hd, h⟩ := bind_eq_ok h
    obtain ⟨rest, hcalls, h⟩ := bind_eq_ok h
    obtain rfl := Except.ok.inj h
    obtain ⟨v, hv, hmeans⟩ := hfirst d hd
    obtain ⟨entries, hnames, hvalues, hfields⟩ := ih hcalls hrest
    refine ⟨(key, v) :: entries, .cons (JsonString.toText_eq_ok_iff.1 hkey) hnames,
      .cons hmeans hvalues, fun before => ?_⟩
    -- after its value, a key is set in what the members in front of it have gathered
    have hset : setAll before ((key, v) :: entries) = setAll (Fields.set key v before) entries :=
      rfl
    have hvalue : callsToFields ⟨before, some key⟩ ((.value, d) :: rest)
        = callsToFields ⟨Fields.set key v before, none⟩ rest := by
      rw [callsToFields.eq_def]
      simp only [hv]
      rfl
    rw [hset, ← hfields (Fields.set key v before), ← hvalue, callsToFields]
    rfl

theorem map_eq_ok {ε α β : Type} {x : Except ε α} {f : α → β} {b : β} (h : x.map f = .ok b) :
    ∃ a, x = .ok a ∧ f a = b := by
  cases x with
  | ok a => exact ⟨a, rfl, Except.ok.inj h⟩
  | error e => cases h

/-- **Valid JSON** becomes the value that it means. -/
theorem exists_means_of_toDatumAtAnyDepth {tree : JsonTree} {d : Datum}
    (h : tree.toDatumAtAnyDepth = .ok d) : tree.Becomes d := by
  induction tree using Parts.induction sizeOf_lt_of_mem_parts generalizing d with
  | step tree ih =>
    have hparts : ∀ t ∈ tree.parts, ∀ d, t.toDatumAtAnyDepth = .ok d → t.Becomes d :=
      fun t ht _ hd => ih t ht hd
    cases tree with
    | null =>
      obtain rfl := Except.ok.inj h
      exact ⟨_, rfl, .null⟩
    | bool b =>
      obtain rfl := Except.ok.inj h
      exact ⟨_, rfl, .bool b⟩
    | number n => exact JsonNumeral.exists_means h
    | string s =>
      obtain ⟨t, ht, rfl⟩ := map_eq_ok h
      exact ⟨_, rfl, .string (JsonString.toText_eq_ok_iff.1 ht)⟩
    -- lists and objects mean what their parts mean
    | array items =>
      obtain ⟨data, hdata, rfl⟩ := map_eq_ok h
      obtain ⟨vs, hvs, hmeans⟩ := exists_values_of_items hdata hparts
      refine ⟨.list vs, ?_, .array hmeans⟩
      rw [Datum.toValue, hvs]
      rfl
    | object members =>
      obtain ⟨calls, hcalls, rfl⟩ := map_eq_ok h
      obtain ⟨entries, hnames, hvalues, hfields⟩ := exists_entries_of_members hcalls hparts
      refine ⟨.map (Fields.ofList entries), ?_, .object hnames hvalues ?_⟩
      · rw [Datum.toValue, hfields]
        rfl
      · exact Fields.gathers_ofList entries

theorem exists_means_of_toDatum {tree : JsonTree} {d : Datum} (h : tree.toDatum = .ok d) :
    tree.Becomes d := by
  unfold toDatum at h
  split at h
  · cases h
  · exact exists_means_of_toDatumAtAnyDepth h

end JsonTree

end Stencil
