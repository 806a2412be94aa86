import Mathlib.Algebra.GroupWithZero.Nat
import Stencil.Proofs.Number.Spelling
import Stencil.Proofs.Render.Names
import Stencil.Proofs.Value.Conversion

/-!
# Paths

A path is looked up in a value, in a context, or in a scope. In each of them the first segment means
something of its own, and what is behind it is looked up in the value that it means
(`Value.lookup_eq_resolve`, `Context.lookup_eq_resolve`, `Scope.lookup_eq_resolve`). So two of them
agree on a path as soon as they agree on its first segment (`Text.resolve_congr`), and the questions
are about names alone:

* `Context.get?_ofFields` — a context made from fields with distinct names has just those;
* `Scope.get_eq_outermost` — names that no round binds mean what they mean outside of all rounds;
* `Scope.bound?_eq_get?` — the other names are the fields of a mapping which the innermost round
  makes.

`lookup_agrees_and_composes` puts this together with what the segments mean in lists
(`Value.child_list_of_spells`).
-/

namespace Stencil

/-! ### The first segment -/

namespace Text

/-- What a path leads to if its first segment means what `start` says: the segments behind it are
looked up in that. -/
def resolve (start : Text → Value) (path : Text) : Value :=
  match path.cutAt? (· = '.') with
  | some (first, rest) => (start first).lookup rest
  | none => start path

/-- A text is cut into pieces by cutting off one piece after the other. -/
theorem pieces_eq_cutAt? (sep : Char) (t : Text) :
    pieces sep t =
      match t.cutAt? (· = sep) with
      | some (first, rest) => first :: pieces sep rest
      | none => [t] := by
  -- the first piece ends at the first separator, if there is one
  by_cases hsep : sep ∈ t
  · obtain ⟨first, rest, rfl, hfirst⟩ := List.eq_append_cons_of_mem hsep
    have hcut : cutAt? (· = sep) (first ++ sep :: rest) = some (first, rest) := by
      refine cutAt?_append_cons rest ?_ (by simp)
      intro c hc
      exact decide_eq_false (ne_of_mem_of_not_mem hc hfirst)
    rw [hcut, pieces_append_cons, pieces_of_notMem hfirst]
    rfl
  · have hcut : cutAt? (· = sep) t = none := by
      refine cutAt?_eq_none ?_
      intro c hc
      exact decide_eq_false (ne_of_mem_of_not_mem hc hsep)
    rw [hcut, pieces_of_notMem hsep]

theorem resolve_eq_descend (start : Text → Value) (path : Text) :
    resolve start path = (start path.firstPiece).descend (path.pieces '.').tail := by
  rw [resolve, firstPiece, pieces_eq_cutAt?]
  cases path.cutAt? (· = '.') with
  | none => rfl
  | some cut => rfl

/-- **Only what the first segment means** makes a difference. -/
theorem resolve_congr {start start' : Text → Value} {path : Text}
    (h : start path.firstPiece = start' path.firstPiece) :
    resolve start path = resolve start' path := by
  rw [resolve_eq_descend, resolve_eq_descend, h]

/-- A text without a separator is its own first segment. -/
theorem resolve_of_notMem {path : Text} (start : Text → Value) (h : '.' ∉ path) :
    resolve start path = start path := by
  rw [resolve_eq_descend, firstPiece, pieces_of_notMem h]
  rfl

end Text

/-- In a value the first segment means what it leads to from there. -/
theorem Value.lookup_eq_resolve (v : Value) (path : Text) :
    v.lookup path = path.resolve v.child := by
  rw [lookup, Text.resolve, Text.pieces_eq_cutAt?]
  cases path.cutAt? (· = '.') with
  | none => rfl
  | some cut => rfl

/-- In a context the first segment means the value that stands there. -/
theorem Context.lookup_eq_resolve (c : Context) (path : Text) :
    c.lookup path = path.resolve fun name => (c.get? name).getD .undefined := by
  rw [lookup, Text.resolve, Text.pieces_eq_cutAt?]
  cases path.cutAt? (· = '.') with
  | none => rfl
  | some cut => rfl

/-- In a scope the first segment is a name. -/
theorem Scope.lookup_eq_resolve (s : Scope) (path : Text) : s.lookup path = path.resolve s.get := by
  rw [lookup, Text.resolve, Text.pieces_eq_cutAt?]
  cases path.cutAt? (· = '.') with
  | none => rfl
  | some cut => rfl

/-! ### Where a path ends early -/

/-- **Nothing leads on** from where nothing is: a walk may as well stop there. -/
theorem Value.descend_of_nothing {v : Value} (h : v = .undefined ∨ v = .null) (segment : Text)
    (segments : List Text) : v.descend (segment :: segments) = .undefined := by
  have hchild : v.child segment = .undefined := by
    rcases h with rfl | rfl <;> rfl
  rw [descend, List.foldl_cons, hchild]
  induction segments with
  | nil => rfl
  | cons next segments ih => exact ih

/-! ### Contexts and mappings -/

/-- A mapping with the bindings of a context. -/
theorem Value.lookup_map_eq_context {c : Context} {fields : List (Text × Value)}
    (h : ∀ name, Fields.get? name fields = c.get? name) (path : Text) :
    (map fields).lookup path = c.lookup path := by
  rw [lookup_eq_resolve, Context.lookup_eq_resolve]
  apply Text.resolve_congr
  rw [child, h]

theorem NameMap.find?_eq_get? {α : Type} (name : Text) (entries : List (Text × α)) :
    find? name entries = Fields.get? name entries := by
  induction entries with
  | nil => rfl
  | cons e entries ih => rw [find?, Fields.get?, ih]

/-- The last entry with a name is the one that is kept. -/
theorem NameMap.get?_ofList {α : Type} (name : Text) (entries : List (Text × α)) :
    (ofList entries).get? name = Fields.get? name entries.reverse := by
  induction entries using List.reverseRecOn with
  | nil => rfl
  | append_singleton entries e ih =>
    have hlast : ofList (entries ++ [e]) = (ofList entries).insert e.1 e.2 := by
      rw [ofList, List.foldl_append]
      rfl
    rw [hlast, get?_insert, ih, List.reverse_append, List.reverse_singleton, List.singleton_append,
      Fields.get?]
    simp only [eq_comm]

/-- **A context made from fields** with distinct names has just those. -/
theorem Context.get?_ofFields {fields : List (Text × Value)} (hnodup : (fields.map (·.1)).Nodup)
    (name : Text) : (ofFields fields).get? name = Fields.get? name fields := by
  rw [ofFields, NameMap.get?_ofList, Fields.get?_reverse hnodup]

theorem Context.ofDatum_of_map {d : Datum} {fields : List (Text × Value)}
    (h : d.toValue = .ok (.map fields)) : ofDatum d = .ok (ofFields fields) := by
  rw [ofDatum, h]
  rfl

/-- **A context that a datum makes** comes from a mapping, in which paths lead to the same. -/
theorem Context.lookup_ofDatum {d : Datum} {c : Context} (h : ofDatum d = .ok c) :
    ∃ fields, d.toValue = .ok (.map fields) ∧
      ∀ path, c.lookup path = (Value.map fields).lookup path := by
  rw [ofDatum] at h
  cases hvalue : d.toValue with
  | error e =>
    rw [hvalue] at h
    cases h
  | ok v =>
    rw [hvalue] at h
    cases v with
    | map fields =>
      obtain rfl := Except.ok.inj h
      -- names are distinct, so it does not matter that the context has them in another order
      obtain ⟨_, -, hgathers⟩ := Datum.exists_gives_of_toValue hvalue
      refine ⟨fields, rfl, fun path => ?_⟩
      rw [Value.lookup_map_eq_context]
      intro name
      rw [get?_ofFields hgathers.nodup]
    | _ => cases h

/-! ### Rounds -/

namespace Scope

/-- The scope around all rounds. -/
def outermost : Scope → Scope
  | root page globals => root page globals
  | iteration outer _ _ _ => outer.outermost

/-- The names that a round binds. -/
def roundNames : List Text :=
  [thisName, indexName, firstName, lastName]

/-- What a round binds, as the fields of a mapping. -/
def roundFields (item : Value) (index count : Nat) : List (Text × Value) :=
  [(thisName, item), (indexName, .unsigned (UInt64.ofNat index)), (firstName, .bool (index = 0)),
    (lastName, .bool (index + 1 = count))]

theorem bound?_eq_get? (item : Value) (index count : Nat) (name : Text) :
    bound? item index count name = Fields.get? name (roundFields item index count) := by
  simp only [bound?, roundFields, Fields.get?, eq_comm]

theorem bound?_eq_none_iff {item : Value} {index count : Nat} {name : Text} :
    bound? item index count name = none ↔ name ∉ roundNames := by
  rw [bound?_eq_get?, Fields.get?_eq_none_iff]
  rfl

/-- **Names that no round binds** mean what they mean outside of all rounds. -/
theorem get_eq_outermost {name : Text} (h : name ∉ roundNames) (s : Scope) :
    s.get name = s.outermost.get name := by
  induction s with
  | root page globals => rfl
  | iteration outer item index count ih =>
    rw [get, bound?_eq_none_iff.2 h, Option.getD_none, ih, outermost]

/-- **Names that rounds bind** mean what the innermost round says. -/
theorem get_eq_child_roundFields {name : Text} (h : name ∈ roundNames) (outer : Scope)
    (item : Value) (index count : Nat) :
    (iteration outer item index count).get name
      = (Value.map (roundFields item index count)).child name := by
  have hsome : bound? item index count name ≠ none := fun hnone => bound?_eq_none_iff.1 hnone h
  obtain ⟨v, hv⟩ := Option.ne_none_iff_exists'.1 hsome
  rw [get, Value.child, ← bound?_eq_get?, hv, Option.getD_some, Option.getD_some]

end Scope

/-! ### Lists -/

namespace Value

/-- A segment names a position if and only if it spells it, and it is a number of 64 bits. -/
theorem position?_eq_some_iff {segment : Text} {n : Nat} :
    position? segment = some n ↔ SpellsNumber segment n ∧ n < 2 ^ 64 := by
  rw [position?, Option.filter_eq_some_iff, natural?_eq_some_iff, decide_eq_true_iff]
  exact Iff.rfl

/-- **In a list** a segment that spells a position leads to the item there. -/
theorem child_list_of_spells {items : List Value} {segment : Text} {n : Nat}
    (hspells : SpellsNumber segment n) (hword : n < 2 ^ 64) (h : n < items.length) :
    (list items).child segment = items[n] := by
  rw [child, position?_eq_some_iff.2 ⟨hspells, hword⟩, Option.bind_some,
    List.getElem?_eq_getElem h, Option.getD_some]

theorem child_list_eq_undefined {items : List Value} {segment : Text}
    (h : ¬ ∃ n, SpellsNumber segment n ∧ n < 2 ^ 64 ∧ n < items.length) :
    (list items).child segment = .undefined := by
  rw [child]
  cases hposition : position? segment with
  | none => rfl
  | some n =>
    -- it is a position, but one behind the last item
    obtain ⟨hspells, hword⟩ := position?_eq_some_iff.1 hposition
    have hbeyond : items.length ≤ n := by
      by_contra hlt
      exact h ⟨n, hspells, hword, Nat.lt_of_not_le hlt⟩
    rw [Option.bind_some, List.getElem?_eq_none hbeyond, Option.getD_none]

/-- A segment by itself is a path. -/
theorem lookup_of_notMem {segment : Text} (v : Value) (h : '.' ∉ segment) :
    v.lookup segment = v.child segment := by
  rw [lookup_eq_resolve, Text.resolve_of_notMem _ h]

end Value

/-! ### All of them together -/

/-- **Paths agree and compose.** A path of two parts is looked up one part after the other. In a
context, in a scope outside of all rounds where nothing else is bound, and in a mapping with the
same bindings, it leads to the same; a context that a datum makes is like the mapping which the
datum becomes. Within rounds, a path that begins with a name of a round is looked up in what the
innermost one binds, and any other path as it is outside. In a list, a segment leads to an item by
any spelling of its position, with zeros in front and perhaps a plus sign before them, and otherwise
to nothing. -/
theorem lookup_agrees_and_composes :
    (∀ (v : Value) (p q : Text), v.lookup (p ++ '.' :: q) = (v.lookup p).lookup q) ∧
    (∀ (c : Context) (p : Text),
      (Scope.root c ∅).lookup p = c.lookup p ∧ (Value.ofContext c).lookup p = c.lookup p ∧
      ∀ fields, (∀ name, Fields.get? name fields = c.get? name) →
        (Value.map fields).lookup p = c.lookup p) ∧
    (∀ d : Datum,
      ((∃ c, Context.ofDatum d = .ok c) ↔ ∃ fields, d.toValue = .ok (.map fields)) ∧
      ∀ c, Context.ofDatum d = .ok c →
        ∃ v, d.toValue = .ok v ∧ ∀ p, c.lookup p = v.lookup p) ∧
    (∀ (s : Scope) (p : Text), p.firstPiece ∉ Scope.roundNames →
      s.lookup p = s.outermost.lookup p) ∧
    (∀ (outer : Scope) (item : Value) (index count : Nat) (p : Text),
      p.firstPiece ∈ Scope.roundNames →
      (Scope.iteration outer item index count).lookup p
        = (Value.map (Scope.roundFields item index count)).lookup p) ∧
    (∀ (items : List Value) (segment : Text), '.' ∉ segment →
      (∀ n (h : n < items.length), SpellsNumber segment n → n < 2 ^ 64 →
        (Value.list items).lookup segment = items[n]) ∧
      ((¬ ∃ n, SpellsNumber segment n ∧ n < 2 ^ 64 ∧ n < items.length) →
        (Value.list items).lookup segment = .undefined)) := by
  refine ⟨Value.lookup_append, ?_, ?_, ?_, ?_, ?_⟩
  -- a context, alone in a scope, and as a mapping
  · intro c p
    refine ⟨?root, ?mapping, ?fields⟩
    case root =>
      rw [Scope.lookup_eq_resolve, Context.lookup_eq_resolve]
      apply Text.resolve_congr
      have hempty : (∅ : Context).get? p.firstPiece = none := rfl
      rw [Scope.get, hempty, Option.or_none]
    case mapping =>
      refine Value.lookup_map_eq_context ?_ p
      intro name
      rw [NameMap.get?, NameMap.find?_eq_get?]
    case fields =>
      intro fields h
      exact Value.lookup_map_eq_context h p
  -- a context that a datum makes
  · intro d
    refine ⟨⟨?_, ?_⟩, ?_⟩
    · rintro ⟨c, hc⟩
      obtain ⟨fields, hvalue, -⟩ := Context.lookup_ofDatum hc
      exact ⟨fields, hvalue⟩
    · rintro ⟨fields, hvalue⟩
      exact ⟨_, Context.ofDatum_of_map hvalue⟩
    · intro c hc
      obtain ⟨fields, hvalue, hlookup⟩ := Context.lookup_ofDatum hc
      exact ⟨_, hvalue, hlookup⟩
  -- names that no round binds, and names that every round does
  · intro s p hp
    rw [Scope.lookup_eq_resolve, Scope.lookup_eq_resolve]
    exact Text.resolve_congr (Scope.get_eq_outermost hp s)
  · intro outer item index count p hp
    rw [Scope.lookup_eq_resolve, Value.lookup_eq_resolve]
    exact Text.resolve_congr (Scope.get_eq_child_roundFields hp outer item index count)
  -- positions in a list
  · intro items segment hsegment
    rw [Value.lookup_of_notMem _ hsegment]
    exact ⟨fun n h hspells hword => Value.child_list_of_spells hspells hword h,
      Value.child_list_eq_undefined⟩

-- In an inner round the item is another one, and the title of the page is still there.
example :
    let page : Context := (∅ : Context).insert ['t'] (.text ['T'])
    let outer : Scope := .iteration (.root page ∅) (.list [.null, .bool true]) 0 2
    let inner : Scope := .iteration outer (.bool true) 1 2
    outer.lookup ['t', 'h', 'i', 's', '.', '+', '0', '1'] = inner.lookup ['t', 'h', 'i', 's'] ∧
      inner.lookup ['t'] = .text ['T'] :=
  ⟨rfl, rfl⟩

end Stencil
