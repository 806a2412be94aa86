import Mathlib.Data.List.Forall2
import Stencil.Proofs.Render.Reading

/-!
# Templates that show the same

Two texts may differ and still write the same, or write the same but for some diagnostics. To
compare them, one says what is looked at (`Observation`) and what a body shows of it: as a whole,
and branch by branch (`Sense`). A body is put together from its parts, and so is its sense:

* `View.sense_append`, `View.sense_block` — the sense of fragments one after the other comes from
  theirs, and that of a block from the sense of its body;
* `Parser.Alike.step`, `Parser.Alike.foldl_step` — parsers that have read what shows the same, and
  go on with tags that show the same, have again read what shows the same.

So to compare what two templates write it is enough to go through their tags side by side.
-/

namespace Stencil

/-! ### Observations -/

/-- Something that is **looked at** of a result, piece by piece. -/
structure Observation (α : Type) where
  of : Rendered → List α
  of_empty : of ∅ = []
  of_append : ∀ a b, of (a ++ b) = of a ++ of b

namespace Observation

variable {α : Type}

/-- The output alone. -/
def output : Observation Char :=
  ⟨Rendered.output, rfl, fun _ _ => rfl⟩

/-- Something about those diagnostics that are to be kept. -/
def diagnostics (keep : Diagnostic → Bool) (f : Diagnostic → α) : Observation α where
  of r := (r.diagnostics.filter keep).map f
  of_empty := rfl
  of_append a b := by rw [Rendered.diagnostics_append, List.filter_append, List.map_append]

theorem of_join (o : Observation α) (parts : List Rendered) :
    o.of (.join parts) = (parts.map o.of).flatten := by
  induction parts with
  | nil => exact o.of_empty
  | cons a parts ih => rw [Rendered.join_cons, o.of_append, ih, List.map_cons, List.flatten_cons]

end Observation

/-! ### Senses -/

/-- What a body **shows** in each scope: as a whole, and as the two branches of an `if` block; the
second is `none` if nothing separates them. -/
structure Sense (α : Type) where
  whole : Scope → List α
  first : Scope → List α
  second : Option (Scope → List α)

namespace Sense

variable {α : Type}

/-- What shows the same whether or not it stands in an `if` block. -/
def leaf (show_ : Scope → List α) : Sense α :=
  ⟨show_, show_, none⟩

/-- What nothing shows. -/
def empty : Sense α := leaf fun _ => []

instance : EmptyCollection (Sense α) := ⟨empty⟩

/-- One body behind another: what follows belongs to the last branch. -/
def append (a b : Sense α) : Sense α where
  whole scope := a.whole scope ++ b.whole scope
  first scope := if a.second.isNone then a.first scope ++ b.first scope else a.first scope
  second := match a.second with
    | none => b.second
    | some other => some fun scope => other scope ++ b.whole scope

instance : Append (Sense α) := ⟨append⟩

theorem append_assoc (a b c : Sense α) : a ++ b ++ c = a ++ (b ++ c) := by
  obtain ⟨awhole, afirst, asecond⟩ := a
  obtain ⟨bwhole, bfirst, bsecond⟩ := b
  change append (append _ _) _ = append _ (append _ _)
  cases asecond with
  | none =>
    cases bsecond with
    | none => simp [append]
    | some other => simp [append]
  | some other => simp [append]

@[simp] theorem empty_append (a : Sense α) : ∅ ++ a = a := by
  change append empty a = a
  simp [append, empty, leaf]

@[simp] theorem append_empty (a : Sense α) : a ++ ∅ = a := by
  obtain ⟨whole, first, second⟩ := a
  change append _ empty = _
  cases second with
  | none => simp [append, empty, leaf]
  | some other => simp [append, empty, leaf]

theorem leaf_append_leaf (f g : Scope → List α) :
    leaf f ++ leaf g = leaf fun scope => f scope ++ g scope := rfl

/-- What a block shows whose body shows `body`, behind what is shown of the block itself. -/
def block (kind : BlockKind) (path : Text) (head : List α) (body : Sense α) : Sense α :=
  leaf fun scope => head ++
    match kind with
    | .each =>
      let items := (scope.lookup path).items?.getD []
      (items.mapIdx fun index item =>
        body.whole (.iteration scope item index items.length)).flatten
    | .cond =>
      if (scope.lookup path).isTruthy then body.first scope
      else (body.second.map fun other => other scope).getD []
    | .notCond => if (scope.lookup path).isTruthy then [] else body.whole scope

end Sense

/-! ### What fragments show -/

theorem evalAll_append (partials : Registry) (included : Template → Scope → Rendered)
    (template : Template) (xs ys : List Fragment) (scope : Scope) :
    evalAll partials included template (xs ++ ys) scope
      = evalAll partials included template xs scope ++
        evalAll partials included template ys scope := by
  induction xs with
  | nil => rw [List.nil_append, evalAll, Rendered.empty_append]
  | cons x xs ih => rw [List.cons_append, evalAll, ih, evalAll, Rendered.append_assoc]

/-- Fragments behind a body go to its last branch. -/
theorem splitAlternative_append (xs ys : List Fragment) :
    splitAlternative (xs ++ ys) =
      match (splitAlternative xs).2 with
      | none => ((splitAlternative xs).1 ++ (splitAlternative ys).1, (splitAlternative ys).2)
      | some other => ((splitAlternative xs).1, some (other ++ ys)) := by
  -- the first tag that separates branches may come in the second part only
  induction xs using splitAlternative.induct with
  | case1 => rfl
  | case2 rest => rfl
  | case3 x rest hne ih =>
    rw [List.cons_append, splitAlternative, splitAlternative, ih]
    · cases (splitAlternative rest).2 with
      | none => rfl
      | some other => rfl
    · exact hne
    · exact hne

/-- How a template is **looked at**: which partials there are and what they write, and what is
observed. -/
structure View (α : Type) where
  partials : Registry
  included : Template → Scope → Rendered
  template : Template
  observation : Observation α

namespace View

variable {α : Type} (v : View α)

/-- What some fragments of the template show in a scope. -/
def shown (xs : List Fragment) (scope : Scope) : List α :=
  v.observation.of (evalAll v.partials v.included v.template xs scope)

/-- The sense of some fragments of the template. -/
def sense (xs : List Fragment) : Sense α where
  whole := v.shown xs
  first := v.shown (splitAlternative xs).1
  second := (splitAlternative xs).2.map v.shown

/-- What is shown of the end of a block. -/
def report (head : BlockHead) (kind : BlockKind) : List α :=
  v.observation.of (head.report v.template kind)

/-- A block that a tag of its kind closes has nothing to say about its end. -/
theorem report_of_close (path : Text) (start stop : Nat) (kind : BlockKind) :
    v.report ⟨path, start, stop, some kind⟩ kind = [] := by
  rw [report, BlockHead.report, BlockKind.endFault?, if_pos rfl, v.observation.of_empty]

theorem shown_nil (scope : Scope) : v.shown [] scope = [] := by
  rw [shown, evalAll, v.observation.of_empty]

theorem shown_append (xs ys : List Fragment) (scope : Scope) :
    v.shown (xs ++ ys) scope = v.shown xs scope ++ v.shown ys scope := by
  rw [shown, evalAll_append, v.observation.of_append, shown, shown]

theorem shown_cons (x : Fragment) (xs : List Fragment) (scope : Scope) :
    v.shown (x :: xs) scope = v.shown [x] scope ++ v.shown xs scope :=
  v.shown_append [x] xs scope

theorem sense_nil : v.sense [] = ∅ := by
  have hnil : v.shown [] = fun _ => [] := funext v.shown_nil
  rw [sense, splitAlternative, hnil]
  rfl

theorem sense_append (xs ys : List Fragment) : v.sense (xs ++ ys) = v.sense xs ++ v.sense ys := by
  have hshown (xs ys : List Fragment) :
      v.shown (xs ++ ys) = fun scope => v.shown xs scope ++ v.shown ys scope :=
    funext (v.shown_append xs ys)
  change _ = Sense.append _ _
  rw [sense, splitAlternative_append, hshown]
  cases hxs : (splitAlternative xs).2 with
  | none => simp [sense, Sense.append, hxs, hshown]
  | some other => simp [sense, Sense.append, hxs, hshown]

/-- A fragment that separates nothing shows the same in every block. -/
theorem sense_singleton {x : Fragment} (h : x ≠ .alternative) :
    v.sense [x] = .leaf (v.shown [x]) := by
  have hsplit : splitAlternative [x] = ([x], none) := by
    rw [splitAlternative]
    · rfl
    · exact h
  rw [sense, hsplit]
  rfl

theorem shown_text (t : Text) (scope : Scope) :
    v.shown [.text t] scope = v.observation.of (.ofText t) := by
  rw [shown, evalAll_singleton, Fragment.eval]

theorem sense_text (t : Text) :
    v.sense [.text t] = .leaf fun _ => v.observation.of (.ofText t) := by
  rw [v.sense_singleton (by simp)]
  exact congrArg Sense.leaf (funext (v.shown_text t))

/-- Text shows the same in two pieces. -/
theorem sense_text_append (s t : Text) :
    v.sense [.text (s ++ t)] = v.sense [.text s] ++ v.sense [.text t] := by
  rw [sense_text, sense_text, sense_text, Sense.leaf_append_leaf, Rendered.ofText_append,
    v.observation.of_append]

theorem sense_text_nil : v.sense [.text []] = ∅ := by
  rw [sense_text, Rendered.ofText_nil, v.observation.of_empty]
  rfl

/-- **The sense of a block** comes from that of its body. -/
theorem sense_block (f : Frame) (close : Option BlockKind) (body : List Fragment) :
    v.sense [f.block close body]
      = .block f.kind f.path (v.report ⟨f.path, f.start, f.stop, close⟩ f.kind) (v.sense body) := by
  have hne : f.block close body ≠ .alternative := by
    unfold Frame.block
    split <;> simp
  rw [v.sense_singleton hne]
  refine congrArg Sense.leaf (funext fun scope => ?_)
  rw [shown, evalAll_singleton, Frame.block]
  -- each kind shows its report and then its sections, which are rendered in their own scopes
  cases f.kind with
  | each =>
    simp only
    rw [Fragment.eval, v.observation.of_append, v.observation.of_join, report]
    congr 2
    rw [List.mapIdx_eq_zipIdx_map, List.mapIdx_eq_zipIdx_map, List.map_map]
    rfl
  | cond =>
    simp only
    rw [Fragment.eval_cond, v.observation.of_append, report]
    congr 1
    split
    · rfl
    · simp only [sense]
      cases (splitAlternative body).2 with
      | none => exact v.observation.of_empty
      | some other => rfl
  | notCond =>
    simp only
    rw [Fragment.eval, v.observation.of_append, report]
    congr 1
    split
    · exact v.observation.of_empty
    · rfl

end View

/-! ### Parsers side by side -/

/-- The parser at the beginning of a text. -/
def Parser.start : Parser :=
  ⟨[], []⟩

/-- Reads tags and the text behind the last of them. -/
def Parser.read (p : Parser) (ks : List Token) (last : Text) : Parser :=
  (ks.foldl step p).push (.text last)

section Alike

variable {α : Type}

/-- Whether text shows the same in two views. -/
structure View.Alike (v w : View α) : Prop where
  text : ∀ t, v.observation.of (.ofText t) = w.observation.of (.ofText t)

/-- Whether two tags **show the same**, wherever in their sources they stand. -/
structure Token.Alike (v w : View α) (k l : Token) : Prop where
  tag_eq : k.tag = l.tag
  lexeme_eq : k.lexeme = l.lexeme
  inclusion_eq : ∀ name, k.tag = .inclusion name →
    v.sense [.inclusion name k.start k.stop] = w.sense [.inclusion name l.start l.stop]
  /-- A block shows the same of its end, if a tag closes it. -/
  report_eq : ∀ kind path close, k.tag = .opening kind path →
    v.report ⟨path, k.start, k.stop, some close⟩ kind
      = w.report ⟨path, l.start, l.stop, some close⟩ kind

/-- Whether two open blocks show the same. -/
structure Frame.Alike (v w : View α) (f g : Frame) : Prop where
  kind_eq : f.kind = g.kind
  path_eq : f.path = g.path
  before_eq : v.sense f.before = w.sense g.before
  report_eq : ∀ close, v.report ⟨f.path, f.start, f.stop, some close⟩ f.kind
    = w.report ⟨g.path, g.start, g.stop, some close⟩ g.kind

/-- Whether two parsers **have read what shows the same**. -/
structure Parser.Alike (v w : View α) (p q : Parser) : Prop where
  fragments_eq : v.sense p.fragments = w.sense q.fragments
  frames : List.Forall₂ (Frame.Alike v w) p.frames q.frames

variable {v w : View α} {p q : Parser}

theorem Token.Alike.refl (v : View α) (k : Token) : k.Alike v v k :=
  ⟨rfl, rfl, fun _ _ => rfl, fun _ _ _ _ => rfl⟩

namespace View.Alike

theorem sense_text (h : v.Alike w) (t : Text) : v.sense [.text t] = w.sense [.text t] := by
  rw [v.sense_text, w.sense_text, h.text]

/-- What only writes text shows the same. -/
theorem sense_of_eval_text (h : v.Alike w) {x : Fragment} {t : Scope → Text}
    (hv : ∀ scope, x.eval v.partials v.included v.template scope = .ofText (t scope))
    (hw : ∀ scope, x.eval w.partials w.included w.template scope = .ofText (t scope)) :
    v.sense [x] = w.sense [x] := by
  have hshown : v.shown [x] = w.shown [x] := by
    funext scope
    rw [View.shown, View.shown, evalAll_singleton, evalAll_singleton, hv, hw, h.text]
  have hnil : v.shown [] = w.shown [] := funext fun scope => by rw [v.shown_nil, w.shown_nil]
  by_cases hx : x = .alternative
  · subst hx
    rw [View.sense, View.sense, splitAlternative, hshown, hnil, Option.map_some, Option.map_some,
      hnil]
  · rw [v.sense_singleton hx, w.sense_singleton hx, hshown]

theorem sense_value (h : v.Alike w) (path : Text) : v.sense [.value path] = w.sense [.value path] :=
  h.sense_of_eval_text (fun _ => by rw [Fragment.eval]) fun _ => by rw [Fragment.eval]

theorem sense_alternative (h : v.Alike w) : v.sense [.alternative] = w.sense [.alternative] :=
  h.sense_of_eval_text (fun _ => by rw [Fragment.eval]) fun _ => by rw [Fragment.eval]

end View.Alike

namespace Parser.Alike

theorem start (v w : View α) : Alike v w .start .start :=
  ⟨v.sense_nil.trans w.sense_nil.symm, .nil⟩

theorem refl (v : View α) (p : Parser) : Alike v v p p :=
  ⟨rfl, List.forall₂_same.2 fun _ _ => ⟨rfl, rfl, rfl, fun _ => rfl⟩⟩

/-- Fragments that show the same keep parsers alike. -/
theorem append {xs ys : List Fragment} (h : Alike v w p q) (hxy : v.sense xs = w.sense ys) :
    Alike v w ⟨p.fragments ++ xs, p.frames⟩ ⟨q.fragments ++ ys, q.frames⟩ :=
  ⟨by rw [v.sense_append, w.sense_append, h.fragments_eq, hxy], h.frames⟩

theorem push {x y : Fragment} (h : Alike v w p q) (hxy : v.sense [x] = w.sense [y]) :
    Alike v w (p.push x) (q.push y) :=
  h.append hxy

/-- A block that is closed shows the same where it ends. -/
theorem close {f g : Frame} {xs ys : List Fragment} (hfg : f.Alike v w g)
    (h : v.sense xs = w.sense ys) (kind : BlockKind) :
    v.sense (f.before ++ [f.block (some kind) xs])
      = w.sense (g.before ++ [g.block (some kind) ys]) := by
  rw [v.sense_append, w.sense_append, v.sense_block, w.sense_block, hfg.before_eq, hfg.report_eq,
    hfg.kind_eq, hfg.path_eq, h]

/-- **Tags that show the same** keep parsers alike, if they are so with the text before the tags. -/
theorem step (hvw : v.Alike w) {k l : Token} (hkl : k.Alike v w l)
    (h : Alike v w (p.push (.text k.before)) (q.push (.text l.before))) :
    Alike v w (p.step k) (q.step l) := by
  unfold Parser.step
  generalize p.push (.text k.before) = p at h ⊢
  generalize q.push (.text l.before) = q at h ⊢
  simp only
  rw [← hkl.tag_eq]
  -- blocks are opened and closed by both at once, so as many are open in the one as in the other
  cases htag : k.tag with
  | value path => exact h.push (hvw.sense_value path)
  | alternative => exact h.push hvw.sense_alternative
  | inclusion name => exact h.push (hkl.inclusion_eq name htag)
  | opening kind path =>
    refine ⟨?_, .cons ⟨rfl, rfl, h.fragments_eq, fun close => ?_⟩ h.frames⟩
    · rw [v.sense_nil, w.sense_nil]
    · exact hkl.report_eq kind path close htag
  | closing kind =>
    obtain ⟨xs, frames⟩ := p
    obtain ⟨ys, frames'⟩ := q
    cases h.frames with
    | nil => exact h.push (hkl.lexeme_eq ▸ hvw.sense_text _)
    | cons hfg hframes => exact ⟨close hfg h.fragments_eq kind, hframes⟩

/-- Parsers stay alike over tags that show the same, with the same text before each. -/
theorem foldl_step (hvw : v.Alike w) {ks ls : List Token}
    (hkls : List.Forall₂ (fun k l => k.Alike v w l ∧ k.before = l.before) ks ls)
    (h : Alike v w p q) : Alike v w (ks.foldl Parser.step p) (ls.foldl Parser.step q) := by
  induction hkls generalizing p q with
  | nil => exact h
  | cons hkl _ ih => exact ih (step hvw hkl.1 (hkl.2 ▸ h.push (hvw.sense_text _)))

/-- So they do when they have also read the same text behind the last of such tags. -/
theorem read (hvw : v.Alike w) {ks ls : List Token}
    (hkls : List.Forall₂ (fun k l => k.Alike v w l ∧ k.before = l.before) ks ls)
    (h : Alike v w p q) (last : Text) : Alike v w (p.read ks last) (q.read ls last) :=
  (h.foldl_step hvw hkls).push (hvw.sense_text last)

/-- Parsers that have read what shows the same end with what shows the same, if blocks that are left
open do. -/
theorem sense_finish (hopen : ∀ path start stop start' stop' kind,
      v.report ⟨path, start, stop, none⟩ kind = w.report ⟨path, start', stop', none⟩ kind)
    (h : Alike v w p q) :
    v.sense (finish p.fragments p.frames) = w.sense (finish q.fragments q.frames) := by
  obtain ⟨xs, frames⟩ := p
  obtain ⟨ys, frames'⟩ := q
  obtain ⟨hsense, hframes⟩ := h
  change List.Forall₂ _ frames frames' at hframes
  -- from the innermost block to the outermost one: each ends open in both
  induction hframes generalizing xs ys with
  | nil => exact hsense
  | @cons f g outer outer' hfg _ ih =>
    refine ih _ _ ?_
    rw [v.sense_append, w.sense_append, v.sense_block, w.sense_block, hfg.before_eq,
      hopen _ _ _ g.start g.stop, hfg.kind_eq, hfg.path_eq, hsense]

end Parser.Alike

end Alike

end Stencil
