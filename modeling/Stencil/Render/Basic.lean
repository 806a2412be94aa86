import Stencil.Block
import Stencil.Diagnostic
import Stencil.Scope
import Stencil.Template

/-!
# Rendering

A template is rendered tag by tag. Text stands for itself; a value tag writes the text of its value;
a partial is rendered in the scope of the tag that includes it; and a block leads to sections, parts
of its body with the scope in which each is rendered (`Block.sections`):

* an `each` block to one section for each item of a list, and to none if the value is no list;
* an `if` block to the branch that the value chooses, and to none if there is no such branch;
* an `unless` block to its whole body if the value is false.

A closing tag outside of any block is text, and a separating tag outside of an `if` block writes the
value of the name `else`. Missing data writes nothing, and slips in the template come back as
diagnostics next to the output, so rendering never fails.

Rendering a section ends because every section of a block is shorter than the text before it. Only
partials may be longer than what includes them; their nesting is bounded by a number that no finite
nesting exceeds (`inclusionBound`). A partial that is met beyond it is left out: such a render would
go on for ever, and it has no result at all where that is told apart (`renderTemplate?`).
-/

namespace Stencil

/-! ### Results -/

/-- What a render **gives**: the output, and what is worth saying about the template. -/
structure Rendered where
  output : Text
  diagnostics : List Diagnostic
  deriving DecidableEq, Repr, Inhabited

namespace Rendered

/-- Nothing. -/
def empty : Rendered := ⟨[], []⟩

instance : EmptyCollection Rendered := ⟨empty⟩

/-- One result after the other. -/
def append (a b : Rendered) : Rendered :=
  ⟨a.output ++ b.output, a.diagnostics ++ b.diagnostics⟩

instance : Append Rendered := ⟨append⟩

/-- Output alone. -/
def ofText (t : Text) : Rendered := ⟨t, []⟩

/-- A diagnostic alone. -/
def ofDiagnostic (d : Diagnostic) : Rendered := ⟨[], [d]⟩

/-- Several results, one after the other. -/
def join (parts : List Rendered) : Rendered :=
  parts.foldr append ∅

/-- Whether there is nothing to say about the template. -/
def isClean (r : Rendered) : Bool :=
  r.diagnostics.isEmpty

@[simp] theorem output_append (a b : Rendered) : (a ++ b).output = a.output ++ b.output := rfl

@[simp] theorem diagnostics_append (a b : Rendered) :
    (a ++ b).diagnostics = a.diagnostics ++ b.diagnostics := rfl

@[simp] theorem output_empty : (∅ : Rendered).output = [] := rfl

@[simp] theorem diagnostics_empty : (∅ : Rendered).diagnostics = [] := rfl

theorem append_assoc (a b c : Rendered) : a ++ b ++ c = a ++ (b ++ c) := by
  show append (append a b) c = append a (append b c)
  simp [append]

@[simp] theorem empty_append (a : Rendered) : ∅ ++ a = a := rfl

@[simp] theorem append_empty (a : Rendered) : a ++ ∅ = a := by
  show append a empty = a
  simp [append, empty]

@[simp] theorem ofText_nil : ofText [] = ∅ := rfl

theorem ofText_append (s t : Text) : ofText (s ++ t) = ofText s ++ ofText t := rfl

theorem ofText_append_ofDiagnostic (t : Text) (d : Diagnostic) :
    ofText t ++ ofDiagnostic d = ⟨t, [d]⟩ :=
  congrArg (Rendered.mk · [d]) (List.append_nil t)

@[simp] theorem join_nil : join [] = ∅ := rfl

@[simp] theorem join_cons (a : Rendered) (parts : List Rendered) :
    join (a :: parts) = a ++ join parts := rfl

theorem join_append (l m : List Rendered) : join (l ++ m) = join l ++ join m := by
  induction l with
  | nil => rfl
  | cons a l ih => rw [List.cons_append, join_cons, join_cons, ih, append_assoc]

theorem diagnostics_join (l : List Rendered) : (join l).diagnostics = l.flatMap diagnostics := by
  induction l with
  | nil => rfl
  | cons a l ih => rw [join_cons, diagnostics_append, ih, List.flatMap_cons]

theorem mem_diagnostics_join {parts : List Rendered} {d : Diagnostic} :
    d ∈ (join parts).diagnostics ↔ ∃ r ∈ parts, d ∈ r.diagnostics := by
  rw [diagnostics_join, List.mem_flatMap]

end Rendered

/-! ### Sections -/

/-- A **part of a source** to be rendered: its text, the byte at which it begins in the source, and
the scope for its names. -/
structure Section where
  text : Text
  offset : Nat
  scope : Scope
  deriving Repr

namespace Block

/-- The parts of the body of a block to be rendered, one after the other, when the block is on
`value` and its body begins at byte `offset`. -/
def sections (b : Block) (offset : Nat) (value : Value) (scope : Scope) : List Section :=
  match b.kind with
  | .each =>
    let items := value.items?.getD []
    items.mapIdx fun index item => ⟨b.body, offset, .iteration scope item index items.length⟩
  | .cond =>
    let (first, other?) := splitElse b.body
    if value.isTruthy then [⟨first, offset, scope⟩]
    else other?.toList.map fun other => ⟨other, offset + (b.body.size - other.size), scope⟩
  | .notCond => if value.isTruthy then [] else [⟨b.body, offset, scope⟩]

/-- **What the sections of a block are**: its body, in a round of an `each` block or in the scope of
the block itself, or one of the two branches of its body. -/
theorem eq_of_mem_sections {b : Block} {offset : Nat} {value : Value} {scope : Scope} {x : Section}
    (h : x ∈ b.sections offset value scope) :
    (∃ items, value.items? = some items ∧ ∃ (i : Nat) (hi : i < items.length),
      x = ⟨b.body, offset, .iteration scope items[i] i items.length⟩) ∨
    x = ⟨b.body, offset, scope⟩ ∨
    x = ⟨(splitElse b.body).1, offset, scope⟩ ∨
    ∃ other, (splitElse b.body).2 = some other ∧
      x = ⟨other, offset + (b.body.size - other.size), scope⟩ := by
  unfold sections at h
  split at h
  · -- a value without items has no rounds
    cases hitems : value.items? with
    | none =>
      rw [hitems] at h
      cases h
    | some items =>
      rw [hitems] at h
      obtain ⟨i, hi, rfl⟩ := List.mem_mapIdx.1 h
      exact .inl ⟨items, rfl, i, hi, rfl⟩
  · simp only at h
    split at h
    · exact .inr (.inr (.inl (List.mem_singleton.1 h)))
    · obtain ⟨other, hother, rfl⟩ := List.mem_map.1 h
      exact .inr (.inr (.inr ⟨other, Option.mem_toList.1 hother, rfl⟩))
  · split at h
    · cases h
    · exact .inr (.inl (List.mem_singleton.1 h))

theorem length_of_mem_sections {b : Block} {offset : Nat} {value : Value} {scope : Scope}
    {x : Section} (h : x ∈ b.sections offset value scope) : x.text.length ≤ b.body.length := by
  rcases eq_of_mem_sections h with ⟨_, _, _, _, rfl⟩ | rfl | rfl | ⟨other, hother, rfl⟩
  · exact Nat.le_refl _
  · exact Nat.le_refl _
  · exact length_splitElse_fst_le b.body
  · exact length_splitElse_snd_le hother

/-- What is at fault with the end of a block, if anything. -/
def fault? (b : Block) : Option Fault :=
  match b.close with
  | none => some (.unclosedBlock b.kind)
  | some close => if close = b.kind then none else some (.mismatchedClose b.kind close)

end Block

/-- The diagnostic of a fault with the bytes from `start` to `stop` of a template. -/
def Template.diagnostic (t : Template) (fault : Fault) (start stop : Nat) : Diagnostic :=
  ⟨fault, t.name, .locate t.source start stop, t.source⟩

/-! ### The renderer -/

/-- Renders a section of `template`. Partials may still be nested `depth` deep. -/
def renderSection (partials : Registry) (depth : Nat) (template : Template) (part : Section) :
    Rendered :=
  match _h : nextTag part.text with
  | none => .ofText part.text
  | some s =>
    let start := part.offset + s.before.size
    let stop := start + s.lexeme.size
    match s.tag with
    | .closing _ =>
      .ofText s.upTo ++ renderSection partials depth template ⟨s.rest, stop, part.scope⟩
    | .alternative =>
      .ofText (s.before ++ (part.scope.lookup Tag.elseWord).printed) ++
        renderSection partials depth template ⟨s.rest, stop, part.scope⟩
    | .value path =>
      .ofText (s.before ++ (part.scope.lookup path).printed) ++
        renderSection partials depth template ⟨s.rest, stop, part.scope⟩
    | .inclusion name =>
      let included : Rendered :=
        match partials.get? name, depth with
        | none, _ => .ofDiagnostic (template.diagnostic (.missingPartial name) start stop)
        | some _, 0 => ∅
        | some t, depth + 1 => renderSection partials depth t ⟨t.source, 0, part.scope⟩
      .ofText s.before ++ included ++
        renderSection partials depth template ⟨s.rest, stop, part.scope⟩
    | .opening kind path =>
      let block := Block.scan kind s.rest
      let faults := block.fault?.toList.map fun fault =>
        Rendered.ofDiagnostic (template.diagnostic fault start stop)
      let parts := block.sections stop (part.scope.lookup path) part.scope
      .ofText s.before ++ .join faults ++
        .join (parts.attach.map fun x => renderSection partials depth template x.1) ++
        renderSection partials depth template
          ⟨block.rest, stop + (s.rest.size - block.rest.size), part.scope⟩
termination_by (depth, part.text.length)
decreasing_by
  · exact Prod.Lex.right _ (rest_lt_of_nextTag _h)
  · exact Prod.Lex.right _ (rest_lt_of_nextTag _h)
  · exact Prod.Lex.right _ (rest_lt_of_nextTag _h)
  · exact Prod.Lex.left _ _ (Nat.lt_succ_self _)
  · exact Prod.Lex.right _ (rest_lt_of_nextTag _h)
  · -- a section of the block is no longer than its body
    exact Prod.Lex.right _ <| Nat.lt_of_le_of_lt
      (Nat.le_trans (Block.length_of_mem_sections x.2) (Block.length_body_le ..))
      (rest_lt_of_nextTag _h)
  · exact Prod.Lex.right _ <|
      Nat.lt_of_le_of_lt (Block.length_rest_le ..) (rest_lt_of_nextTag _h)

/-! ### How deep partials can nest -/

mutual

/-- How many items all the lists inside a value have together. -/
def Value.itemCount : Value → Nat
  | .list items => items.length + itemsItemCount items
  | .map fields => fieldsItemCount fields
  | _ => 0

/-- How many items all the lists inside the items of a list have together. -/
def itemsItemCount : List Value → Nat
  | [] => 0
  | v :: rest => v.itemCount + itemsItemCount rest

/-- How many items all the lists inside some fields have together. -/
def fieldsItemCount : List (Text × Value) → Nat
  | [] => 0
  | (_, v) :: rest => v.itemCount + fieldsItemCount rest

end

/-- How many items all the lists that a scope can reach have together. Global names that the page
hides lead nowhere. -/
def Scope.itemCount : Scope → Nat
  | root page globals => fieldsItemCount (globals.extend page).entries
  | iteration outer item _ _ => outer.itemCount + item.itemCount + 1

/-- How deep partials can nest in a render that ends. What a partial renders depends on its name and
on the innermost round of an `each` block alone, and there are no more such rounds than items in all
lists; so a deeper nesting comes back to where it was, and never ends. -/
def inclusionBound (partials : Registry) (scope : Scope) : Nat :=
  partials.size * (scope.itemCount + 1)

/-! ### Whole templates -/

/-- Renders a template in a scope. -/
def renderTemplate (partials : Registry) (template : Template) (scope : Scope) : Rendered :=
  renderSection partials (inclusionBound partials scope) template ⟨template.source, 0, scope⟩

/-- The name under which diagnostics mention a source that is no registered template. -/
def oneOffName : Text := "__brace_one_off".toList

/-- Renders a source with the names of a context, including partials of a registry. -/
def render (source : Text) (context : Context) (partials : Registry) : Rendered :=
  renderTemplate partials (.ofSource oneOffName source) (.root context ∅)

end Stencil
