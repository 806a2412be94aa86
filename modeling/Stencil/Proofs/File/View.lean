import Mathlib.Logic.Function.Basic
import Stencil.Proofs.File.Tree

/-!
# What stands at places

A tree of files can be seen place by place: nothing is there, or a file with its bytes, or a link,
or a directory, of which one does not see here what is in it, because that stands at other places. A
well-formed tree is no more than this view of it (`Node.eq_of_view_eq`), and what is put into a tree
changes the view at one place (`Node.view_put`).
-/

namespace Stencil

/-! ### Views -/

/-- **What stands at a place**, without what stands below. -/
inductive Item where
  | file (content : ByteArray)
  | link (target : FilePath)
  | directory

/-- What stands at each place, if anything does. -/
abbrev TreeView := Place → Option Item

namespace TreeView

/-- **One view laid over another**: what stands in it hides what the other has at the same place. -/
def onto (v base : TreeView) : TreeView :=
  fun place => (v place).or (base place)

/-- Directories at some places, and nothing else. -/
def directories (places : List Place) : TreeView :=
  fun place => if places.contains place then some .directory else none

section directories

variable {places : List Place} {place : Place}

theorem directories_of_mem (h : place ∈ places) : directories places place = some .directory :=
  if_pos (List.contains_iff_mem.2 h)

theorem directories_of_notMem (h : place ∉ places) : directories places place = none :=
  if_neg (mt List.contains_iff_mem.1 h)

end directories

theorem onto_assoc (u v w : TreeView) : (u.onto v).onto w = u.onto (v.onto w) :=
  funext fun _ => Option.or_assoc

theorem directories_append (a b : List Place) :
    directories (a ++ b) = (directories a).onto (directories b) := by
  funext place
  rw [onto]
  by_cases ha : place ∈ a
  · rw [directories_of_mem ha, directories_of_mem (List.mem_append_left b ha), Option.some_or]
  · rw [directories_of_notMem ha, Option.none_or]
    by_cases hb : place ∈ b
    · rw [directories_of_mem hb, directories_of_mem (List.mem_append_right a hb)]
    · rw [directories_of_notMem hb, directories_of_notMem fun h =>
        (List.mem_append.1 h).elim ha hb]

theorem onto_none (v : TreeView) : v.onto (fun _ => none) = v :=
  funext fun _ => Option.or_none

end TreeView

namespace Node

/-- A node without what is below it. -/
def item : Node → Item
  | .file content => .file content
  | .link target => .link target
  | .directory _ => .directory

/-- **The view of a tree**. -/
def view (n : Node) : TreeView :=
  fun place => (n.at? place).map item

theorem view_cons (n : Node) (name : Text) (place : Place) :
    n.view (name :: place) = (n.child? name).bind fun child => child.view place := by
  rw [view, at?, Option.map_bind]
  rfl

theorem view_append {n m : Node} {place : Place} (h : n.at? place = some m) (further : Place) :
    n.view (place ++ further) = m.view further := by
  rw [view, at?_append, h]
  rfl

theorem view_eq_file_iff {n : Node} {place : Place} {content : ByteArray} :
    n.view place = some (.file content) ↔ n.at? place = some (.file content) := by
  rw [view, Option.map_eq_some_iff]
  constructor
  · rintro ⟨m, hm, hitem⟩
    cases m with
    | file content' =>
      obtain rfl := Item.file.inj hitem
      exact hm
    | link target => cases hitem
    | directory entries => cases hitem
  · exact fun h => ⟨_, h, rfl⟩

theorem view_eq_directory_iff {n : Node} {place : Place} :
    n.view place = some .directory ↔ ∃ entries, n.at? place = some (.directory entries) := by
  rw [view, Option.map_eq_some_iff]
  constructor
  · rintro ⟨m, hm, hitem⟩
    cases m with
    | file content => cases hitem
    | link target => cases hitem
    | directory entries => exact ⟨entries, hm⟩
  · exact fun ⟨entries, h⟩ => ⟨_, h, rfl⟩

theorem isSome_entriesAt?_iff {n : Node} {place : Place} :
    (n.entriesAt? place).isSome ↔ n.view place = some .directory := by
  rw [view_eq_directory_iff, entriesAt?]
  cases h : n.at? place with
  | none => exact iff_of_false Bool.false_ne_true nofun
  | some m =>
    cases m with
    | file content => exact iff_of_false Bool.false_ne_true nofun
    | link target => exact iff_of_false Bool.false_ne_true nofun
    | directory entries => exact iff_of_true rfl ⟨entries, rfl⟩

theorem view_ne_link {n : Node} (h : n.LinkFree) (place : Place) (target : FilePath) :
    n.view place ≠ some (.link target) := by
  intro hview
  obtain ⟨m, hm, hitem⟩ := Option.map_eq_some_iff.1 hview
  have hfree := linkFree_of_at? h hm
  cases m with
  | file content => cases hitem
  | directory entries => cases hitem
  | link target' =>
    rw [LinkFree] at hfree
    exact hfree

/-- Only a directory has something below it. -/
theorem view_eq_directory_of_append {n : Node} {place further : Place} (hne : further ≠ [])
    (h : n.view (place ++ further) ≠ none) : n.view place = some .directory := by
  obtain ⟨name, further, rfl⟩ := List.exists_cons_of_ne_nil hne
  cases hat : n.at? place with
  | none =>
    refine absurd ?_ h
    rw [view, at?_append, hat]
    rfl
  | some m =>
    rw [view_append hat, view_cons] at h
    -- nothing stands behind a file or a link
    cases m with
    | directory entries => exact view_eq_directory_iff.2 ⟨entries, hat⟩
    | file content => exact absurd rfl h
    | link target => exact absurd rfl h

/-! ### A tree is its view -/

/-- The entries of a directory are the children of those names. -/
theorem child?_eq_some_iff {entries : List (Text × Node)} (h : (directory entries).WellFormed)
    {name : Text} {child : Node} :
    (directory entries).child? name = some child ↔ (name, child) ∈ entries :=
  NameMap.find?_eq_some_iff (wellFormed_directory_iff.1 h).1

/-- Directories have an entry of a name if their views show one. -/
theorem exists_child?_of_view_eq {n m child : Node} (h : n.view = m.view) {name : Text}
    (hchild : n.child? name = some child) :
    ∃ other, m.child? name = some other ∧ child.view = other.view := by
  have hview (place : Place) : (m.child? name).bind (·.view place) = child.view place := by
    rw [← view_cons, ← h, view_cons, hchild]
    rfl
  cases hother : m.child? name with
  | none =>
    -- an entry that is there is seen
    have hnil := hview []
    rw [hother] at hnil
    cases hnil
  | some other =>
    rw [hother] at hview
    exact ⟨other, rfl, funext fun place => (hview place).symm⟩

mutual

/-- **A well-formed tree is its view.** -/
theorem eq_of_view_eq (n m : Node) (hn : n.WellFormed) (hm : m.WellFormed)
    (h : n.view = m.view) : n = m := by
  have hitem : n.item = m.item := Option.some.inj (congrFun h [])
  cases n with
  | file content =>
    cases m with
    | file content' => rw [Item.file.inj hitem]
    | link target => cases hitem
    | directory entries => cases hitem
  | link target =>
    cases m with
    | file content => cases hitem
    | link target' => rw [Item.link.inj hitem]
    | directory entries => cases hitem
  | directory entries =>
    cases m with
    | file content => cases hitem
    | link target => cases hitem
    | directory entries' =>
      have hwell := (wellFormed_directory_iff.1 hn).2
      have hwell' := (wellFormed_directory_iff.1 hm).2
      -- both have the same nodes under all names, one direction by looking for what the other has
      have hchild (name : Text) :
          NameMap.find? name entries = NameMap.find? name entries' := by
        cases hfind : NameMap.find? name entries with
        | some child =>
          obtain ⟨other, hother, hview⟩ :=
            exists_child?_of_view_eq (n := .directory entries) h hfind
          have hmem := NameMap.mem_of_find? hfind
          have hsame : child = other := eq_of_view_eq_of_mem entries _ hmem other (hwell _ hmem).2
            (hwell' _ (NameMap.mem_of_find? hother)).2 hview
          rw [hsame]
          exact hother.symm
        | none =>
          cases hfind' : NameMap.find? name entries' with
          | none => rfl
          | some other =>
            obtain ⟨child, hsome, -⟩ :=
              exists_child?_of_view_eq (n := .directory entries') h.symm hfind'
            have hnone : (directory entries).child? name = none := hfind
            rw [hsome] at hnone
            cases hnone
      have hmap : (⟨entries, (wellFormed_directory_iff.1 hn).1⟩ : NameMap Node)
          = ⟨entries', (wellFormed_directory_iff.1 hm).1⟩ := NameMap.ext_get? hchild
      rw [NameMap.mk.inj hmap]

theorem eq_of_view_eq_of_mem (entries : List (Text × Node)) (e : Text × Node) (he : e ∈ entries)
    (m : Node) (hwell : e.2.WellFormed) (hm : m.WellFormed) (h : e.2.view = m.view) : e.2 = m := by
  match entries with
  | [] => cases he
  | (name, n) :: rest =>
    rcases List.mem_cons.1 he with rfl | he
    · exact eq_of_view_eq n m hwell hm h
    · exact eq_of_view_eq_of_mem rest e he m hwell hm h

end

/-! ### Putting leaves into a tree -/

/-- Whether a leaf can stand at a place without anything else being lost: a file is there, or the
name is free in a directory. -/
def IsSlot (n : Node) (place : Place) : Prop :=
  (∃ content, n.view place = some (.file content)) ∨
    n.view place = none ∧ ∃ outer name, place = outer ++ [name] ∧ n.view outer = some .directory

/-- Whether a node **is a leaf**: there is nothing below it. -/
def IsLeaf (n : Node) : Prop :=
  ∀ name, n.child? name = none

theorem isLeaf_file (content : ByteArray) : (Node.file content).IsLeaf :=
  fun _ => rfl

theorem isLeaf_emptyDirectory : emptyDirectory.IsLeaf :=
  fun _ => rfl

theorem IsLeaf.view_eq {leaf : Node} (h : leaf.IsLeaf) (place : Place) :
    leaf.view place = if place = [] then some leaf.item else none := by
  cases place with
  | nil => rfl
  | cons name place =>
    rw [view_cons, h name]
    rfl

/-- A place below a child is one where a leaf can stand if it is one below the directory. -/
theorem IsSlot.of_cons {n child : Node} {name : Text} {place : Place}
    (hchild : n.child? name = some child) (h : n.IsSlot (name :: place)) : child.IsSlot place := by
  have hview (further : Place) : n.view (name :: further) = child.view further := by
    rw [view_cons, hchild]
    rfl
  rw [IsSlot, hview] at h
  refine h.imp id (fun ⟨hnone, outer, last, hplace, houter⟩ => ⟨hnone, ?_⟩)
  -- the directory that holds the slot is not above the entry
  cases outer with
  | nil =>
    obtain ⟨rfl, rfl⟩ := List.cons.inj hplace
    cases hnone
  | cons first outer =>
    obtain ⟨rfl, rfl⟩ := List.cons.inj hplace
    exact ⟨outer, last, rfl, hview outer ▸ houter⟩

/-- Where no child is, a leaf can stand only right there. -/
theorem IsSlot.eq_nil {n : Node} {name : Text} {place : Place} (hchild : n.child? name = none)
    (h : n.IsSlot (name :: place)) : place = [] ∧ n.isDirectory := by
  have hview (further : Place) : n.view (name :: further) = none := by
    rw [view_cons, hchild]
    rfl
  rcases h with ⟨content, h⟩ | ⟨-, outer, last, hplace, houter⟩
  · rw [hview] at h
    cases h
  -- the slot is the missing entry itself, since nothing is seen below it
  · cases outer with
    | nil =>
      obtain ⟨rfl, rfl⟩ := List.cons.inj hplace
      refine ⟨rfl, ?_⟩
      cases n with
      | directory entries => rfl
      | file content => cases houter
      | link target => cases houter
    | cons first outer =>
      obtain ⟨rfl, rfl⟩ := List.cons.inj hplace
      rw [hview] at houter
      cases houter

/-- Another child changes the view of a directory as its own view differs from what was there. -/
theorem view_setChild {n : Node} (h : n.isDirectory) {name : Text} {place : Place} {new : Node}
    {item : Option Item}
    (hnew : new.view = Function.update (fun further => n.view (name :: further)) place item) :
    (n.setChild name new).view = Function.update n.view (name :: place) item := by
  funext other
  cases other with
  | nil =>
    rw [Function.update_of_ne (List.cons_ne_nil _ _).symm]
    cases n <;> rfl
  | cons first other =>
    rw [view_cons, child?_setChild h]
    -- only places below the entry are seen in another way
    by_cases hfirst : first = name
    · subst hfirst
      rw [if_pos rfl, Option.bind_some, hnew]
      simp only [Function.update_apply, List.cons.injEq, true_and]
    · rw [if_neg hfirst, ← view_cons, Function.update_of_ne fun heq => hfirst (List.cons.inj heq).1]

/-- **A leaf that is put into a tree** changes the view at its place. -/
theorem view_put {n leaf : Node} {place : Place} (hslot : n.IsSlot place) (hleaf : leaf.IsLeaf) :
    (n.put place leaf).view = Function.update n.view place (some leaf.item) := by
  induction place generalizing n with
  | nil =>
    -- the tree is nothing but a file
    have hfile : n.IsLeaf := by
      rcases hslot with ⟨content, h⟩ | ⟨-, outer, name, hplace, -⟩
      · obtain rfl := Option.some.inj (view_eq_file_iff.1 h)
        exact isLeaf_file content
      · exact absurd hplace.symm (List.append_ne_nil_of_right_ne_nil _ (List.cons_ne_nil _ _))
    funext other
    rw [put, hleaf.view_eq, Function.update_apply, hfile.view_eq]
    split
    · rfl
    · rfl
  | cons name place ih =>
    cases hchild : n.child? name with
    | some child =>
      have hbelow : (fun further => n.view (name :: further)) = child.view := by
        funext further
        rw [view_cons, hchild]
        rfl
      rw [put, hchild]
      refine view_setChild (isDirectory_of_child? hchild) ?_
      rw [hbelow]
      exact ih (hslot.of_cons hchild)
    | none =>
      obtain ⟨rfl, hdirectory⟩ := hslot.eq_nil hchild
      have hbelow : (fun further => n.view (name :: further)) = fun _ => none := by
        funext further
        rw [view_cons, hchild]
        rfl
      rw [put, hchild]
      simp only [if_pos]
      refine view_setChild hdirectory ?_
      funext further
      rw [hbelow, hleaf.view_eq, Function.update_apply]

theorem linkFree_setChild {n new : Node} {name : Text} (h : n.LinkFree) (hnew : new.LinkFree) :
    (n.setChild name new).LinkFree := by
  cases n with
  | file content => exact h
  | link target => exact h
  | directory entries =>
    refine linkFree_directory_iff.2 fun e he => ?_
    rcases NameMap.mem_insertEntry he with rfl | he
    · exact hnew
    · exact linkFree_directory_iff.1 h e he

/-- What is put into a tree without links leaves it without links if it has none. -/
theorem linkFree_put {n new : Node} {place : Place} (h : n.LinkFree) (hnew : new.LinkFree) :
    (n.put place new).LinkFree := by
  induction place generalizing n with
  | nil => exact hnew
  | cons name place ih =>
    rw [put]
    -- the node goes below an entry that is there, or becomes one, or goes nowhere
    split
    · next child hchild =>
      have hat : n.at? [name] = some child := by
        rw [at?, hchild]
        rfl
      exact linkFree_setChild h (ih (linkFree_of_at? h hat))
    · split
      · exact linkFree_setChild h hnew
      · exact h

end Node

end Stencil
