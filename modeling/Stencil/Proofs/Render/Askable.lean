import Stencil.Proofs.Render.Names
import Stencil.Proofs.Tag.Grammar

/-!
# Names that can be asked for

A tag asks for the value of a name by the first segment of its path. So there are names for which no
tag can ask: a segment has nothing but characters of paths in it, and no point (`IsAskable`). What
such a name stands for makes no difference to any render.

* `isAskable_of_mem_tagsIn` — a tag asks only for names that can be asked for;
* `includedAt_eq_of_isAskable`, `renderTemplate_eq_of_isAskable` — scopes that agree on these render
  everything alike, at every depth of partials, whatever rounds of `each` blocks are put on top;
* `renderTemplate_insert_page` — so what a page binds to other names makes no difference.
-/

namespace Stencil

/-- Whether a template **can ask for** a name. -/
def IsAskable (name : Text) : Prop :=
  (∀ c ∈ name, isPathChar c = true) ∧ '.' ∉ name

instance (name : Text) : Decidable (IsAskable name) :=
  decidable_of_iff (name.all isPathChar = true ∧ '.' ∉ name) (by rw [IsAskable, List.all_eq_true])

/-! ### First segments -/

/-- The first segment of a path begins the path. -/
theorem Text.firstPiece_subset (path : Text) : path.firstPiece ⊆ path := by
  have hwhole := unpieces_pieces '.' path
  rw [firstPiece]
  intro c hc
  rw [← hwhole]
  -- the first piece is a part of the text that all pieces make
  cases hpieces : path.pieces '.' with
  | nil => exact absurd hpieces (pieces_ne_nil '.' path)
  | cons first rest =>
    rw [hpieces, List.headD_cons] at hc
    cases rest with
    | nil => exact hc
    | cons next rest => exact List.mem_append_left _ hc

theorem Text.notMem_firstPiece (path : Text) : '.' ∉ path.firstPiece := by
  rw [firstPiece]
  cases hpieces : path.pieces '.' with
  | nil => exact absurd hpieces (pieces_ne_nil '.' path)
  | cons first rest => exact notMem_of_mem_pieces (hpieces ▸ List.mem_cons_self)

/-- Characters before a path that do not end a segment go to its first one. -/
theorem Text.firstPiece_append {t : Text} (h : '.' ∉ t) (path : Text) :
    (t ++ path).firstPiece = t ++ path.firstPiece := by
  induction t with
  | nil => rfl
  | cons c t ih =>
    obtain ⟨hc, ht⟩ := List.ne_and_not_mem_of_not_mem_cons h
    rw [firstPiece, firstPiece] at ih
    rw [firstPiece, List.cons_append, pieces, if_neg (Ne.symm hc), List.cons_append, firstPiece,
      ← ih ht]
    cases hpieces : pieces '.' (t ++ path) with
    | nil => exact absurd hpieces (pieces_ne_nil '.' _)
    | cons first rest => rfl

theorem isAskable_firstPiece {path : Text} (h : isPath path = true) :
    IsAskable path.firstPiece := by
  rw [isPath, Bool.and_eq_true, List.all_eq_true] at h
  exact ⟨fun c hc => h.2 c (path.firstPiece_subset hc), path.notMem_firstPiece⟩

theorem isPath_of_isAskable {name : Text} (h : IsAskable name) (hne : name ≠ []) :
    isPath name = true := by
  rw [isPath, Bool.and_eq_true, List.all_eq_true]
  exact ⟨by simpa using hne, h.1⟩

/-! ### Tags -/

/-- **A tag asks only** for names that can be asked for. -/
theorem isAskable_of_mem_tagsIn {t name : Text} {tag : Tag} (htag : tag ∈ tagsIn t)
    (hname : tag.reads? = some name) : IsAskable name := by
  rw [tagsIn, ← map_tag_tokens 0] at htag
  obtain ⟨k, hk, rfl⟩ := List.mem_map.1 htag
  obtain ⟨-, after, -, -, hlex, -⟩ := exists_parts_of_mem_tokens hk
  obtain ⟨-, form, -, -, hform, -⟩ := Tag.isSpelling_of_lex? hlex
  change k.tag.Form form at hform
  -- only paths are read, and a tag holds none that is not spelled out
  generalize k.tag = tag at hform hname
  cases hform with
  | inclusion hblanks hname' => cases hname
  | opening hblanks hne hpath =>
    obtain rfl := Option.some.inj hname
    exact isAskable_firstPiece (isPath_iff.2 hpath)
  | closing hblanks => cases hname
  | alternative =>
    obtain rfl := Option.some.inj hname
    decide
  | value hpath hne =>
    obtain rfl := Option.some.inj hname
    exact isAskable_firstPiece (isPath_iff.2 hpath)

/-! ### Renders -/

variable {s s' : Scope}

/-- **Scopes that agree on the names that can be asked for** render everything alike. -/
theorem includedAt_eq_of_isAskable (partials : Registry) (depth : Nat) (t : Template)
    (h : s.AgreeOn IsAskable s') :
    includedAt partials depth t s = includedAt partials depth t s' := by
  induction depth generalizing t s s' with
  | zero => rfl
  | succ depth ih =>
    -- partials are rendered one level further in, where scopes that agree render them alike
    have hpartials (name : Text) : Option.Rel (RenderedAlike partials partials depth depth
        IsAskable) (partials.get? name) (partials.get? name) := by
      cases partials.get? name with
      | none => exact .none
      | some u => exact .some fun x x' hx => ih u hx
    rw [includedAt, includedAt]
    exact renderSection_congr (fun _ _ _ => rfl) ⟨rfl, rfl, h⟩
      (fun tag htag name hname => isAskable_of_mem_tagsIn htag hname) (fun name _ => hpartials name)

/-- So do whole templates, if as many rounds can be reached from both scopes. -/
theorem renderTemplate_eq_of_isAskable (partials : Registry) (t : Template)
    (hcount : s.itemCount = s'.itemCount) (h : s.AgreeOn IsAskable s') :
    renderTemplate partials t s = renderTemplate partials t s' := by
  have hbound : inclusionBound partials s = inclusionBound partials s' := by
    rw [inclusionBound, inclusionBound, hcount]
  change includedAt partials (inclusionBound partials s + 1) t s
    = includedAt partials (inclusionBound partials s' + 1) t s'
  rw [hbound]
  exact includedAt_eq_of_isAskable partials _ t h

/-! ### Bindings that make no difference -/

theorem NameMap.extend_insert {α : Type} (m n : NameMap α) (key : Text) (value : α) :
    m.extend (n.insert key value) = (m.extend n).insert key value := by
  refine ext_get? fun name => ?_
  rw [get?_extend, get?_insert, get?_insert, get?_extend]
  split <;> rfl

/-- A new binding adds the lists inside its value to those that can be reached. -/
theorem fieldsItemCount_insertEntry {name : Text} {value : Value} {fields : List (Text × Value)}
    (h : NameMap.find? name fields = none) :
    fieldsItemCount (NameMap.insertEntry name value fields)
      = value.itemCount + fieldsItemCount fields := by
  induction fields with
  | nil => rfl
  | cons field fields ih =>
    obtain ⟨k, v⟩ := field
    rw [NameMap.find?] at h
    split at h
    · cases h
    · next hne =>
      -- the entry goes in front of this one, or further on
      rw [NameMap.insertEntry]
      split
      · rw [fieldsItemCount]
      · rw [fieldsItemCount, ih h, fieldsItemCount]
        omega

/-- **A binding for which no tag can ask** makes no difference, if no list is bound. -/
theorem renderTemplate_insert_page {name : Text} {page globals : Context} {value : Value}
    (h : ¬ IsAskable name) (hpage : page.get? name = none) (hglobals : globals.get? name = none)
    (hvalue : value.itemCount = 0) (partials : Registry) (t : Template) :
    renderTemplate partials t (.root (page.insert name value) globals)
      = renderTemplate partials t (.root page globals) := by
  refine renderTemplate_eq_of_isAskable partials t ?_ (.insert_page h page globals value)
  have hnone : (globals.extend page).get? name = none := by
    rw [NameMap.get?_extend, hpage, hglobals]
    rfl
  rw [Scope.itemCount, Scope.itemCount, NameMap.extend_insert]
  change fieldsItemCount (NameMap.insertEntry name value (globals.extend page).entries) = _
  rw [fieldsItemCount_insertEntry hnone, hvalue, Nat.zero_add]

end Stencil
