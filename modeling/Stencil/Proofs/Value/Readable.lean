import Stencil.Proofs.Text.Quoting
import Stencil.Proofs.Value.Parts
import Stencil.Value.Printed

/-!
# Reading the text of a collection

The text of a list or of a mapping tells what it was written for. Three things are not told: what is
nothing or `null` writes nothing, a double may write what a whole number writes, and whole numbers
are written the same whether their type has a sign or not. Of values that are *plain*, that is
without the first two, the text tells all but the last.

* `enclosed_append_inj` — a list of parts is read off if each part is, since a separator or the
  closing bracket follows it;
* `spelled_append_inj` — so a value is read off, whatever follows it, if no digit does. The
  induction goes through the parts of the value;
* `printed_eq_iff_sameReading` — collections are written the same just if they are the same but for
  the types of whole numbers.

Which characters have no picture makes no difference, so `Value.spelled` leaves them open.
-/

namespace Stencil

/-! ### Parts between brackets -/

/-- What stands between two parts, or behind the last one, and the parts after it. -/
def followed (closing : Char) : List Text → Text
  | [] => [closing]
  | x :: rest => ',' :: ' ' :: x ++ followed closing rest

/-- Parts with separators between them, up to the closing bracket. -/
def enclosed (closing : Char) : List Text → Text
  | [] => [closing]
  | x :: rest => x ++ followed closing rest

section Enclosed

variable {α : Type} {R : α → α → Prop} {f : α → Text} {closing : Char}

theorem stops_followed (hclosing : isDigit closing = false) (parts : List Text) (s : Text) :
    Stops isDigit (followed closing parts ++ s) := by
  cases parts with
  | nil => exact stops_cons hclosing
  | cons x rest => exact stops_cons (by decide)

variable {xs ys : List α} {s t : Text}

theorem followed_append_inj (hcomma : closing ≠ ',') (hclosing : isDigit closing = false)
    (hread : ∀ x ∈ xs, ∀ y ∈ ys, ∀ s t, Stops isDigit s → Stops isDigit t →
      f x ++ s = f y ++ t → R x y ∧ s = t)
    (h : followed closing (xs.map f) ++ s = followed closing (ys.map f) ++ t) :
    List.Forall₂ R xs ys ∧ s = t := by
  induction xs generalizing ys with
  | nil =>
    cases ys with
    | nil => exact ⟨.nil, (List.cons.inj h).2⟩
    | cons y ys => exact absurd (List.cons.inj h).1 hcomma
  | cons x xs ih =>
    -- a comma stands before each further part, and the bracket behind the last one
    cases ys with
    | nil => exact absurd (List.cons.inj h).1.symm hcomma
    | cons y ys =>
      simp only [List.map_cons, followed, List.cons_append, List.append_assoc, List.cons.injEq,
        true_and] at h
      obtain ⟨hxy, hrest⟩ := hread x List.mem_cons_self y List.mem_cons_self _ _
        (stops_followed hclosing _ s) (stops_followed hclosing _ t) h
      obtain ⟨hxys, hst⟩ := ih (fun x hx y hy =>
        hread x (List.mem_cons_of_mem _ hx) y (List.mem_cons_of_mem _ hy)) hrest
      exact ⟨.cons hxy hxys, hst⟩

/-- **Parts are read off one by one**, if each is, and none begins like the closing bracket. -/
theorem enclosed_append_inj (hcomma : closing ≠ ',') (hclosing : isDigit closing = false)
    (hfirst : ∀ x ∈ xs ++ ys, ∀ s t, f x ++ s ≠ closing :: t)
    (hread : ∀ x ∈ xs, ∀ y ∈ ys, ∀ s t, Stops isDigit s → Stops isDigit t →
      f x ++ s = f y ++ t → R x y ∧ s = t)
    (h : enclosed closing (xs.map f) ++ s = enclosed closing (ys.map f) ++ t) :
    List.Forall₂ R xs ys ∧ s = t := by
  cases xs with
  | nil =>
    cases ys with
    | nil => exact ⟨.nil, (List.cons.inj h).2⟩
    | cons y ys =>
      rw [List.map_cons, enclosed, List.append_assoc] at h
      -- one list is empty, and the other begins with something else than the bracket
      exact absurd h.symm (hfirst y (by simp) _ _)
  | cons x xs =>
    rw [List.map_cons, enclosed, List.append_assoc] at h
    cases ys with
    | nil => exact absurd h (hfirst x (by simp) _ _)
    | cons y ys =>
      rw [List.map_cons, enclosed, List.append_assoc] at h
      obtain ⟨hxy, hrest⟩ := hread x List.mem_cons_self y List.mem_cons_self _ _
        (stops_followed hclosing _ s) (stops_followed hclosing _ t) h
      obtain ⟨hxys, hst⟩ := followed_append_inj hcomma hclosing (fun x hx y hy =>
        hread x (List.mem_cons_of_mem _ hx) y (List.mem_cons_of_mem _ hy)) hrest
      exact ⟨.cons hxy hxys, hst⟩

end Enclosed

namespace Value

/-! ### Values inside a collection -/

mutual

/-- The text of a value inside a list or a mapping, if the characters in `hidden` have no
picture. -/
def spelled (hidden : Char → Bool) : Value → Text
  | text t => t.quotedHiding hidden
  | list items => '[' :: enclosed ']' (spelledItems hidden items)
  | map fields => '\x7b' :: enclosed '\x7d' (spelledFields hidden fields)
  | undefined => []
  | null => []
  | bool b => if b then "true".toList else "false".toList
  | unsigned n => decimal n.toNat
  | signed n => signedDecimal n.toInt
  | float x => x.text

/-- The texts of the items of a list. -/
def spelledItems (hidden : Char → Bool) : List Value → List Text
  | [] => []
  | v :: rest => v.spelled hidden :: spelledItems hidden rest

/-- The texts of the fields of a mapping. -/
def spelledFields (hidden : Char → Bool) : List (Text × Value) → List Text
  | [] => []
  | (name, v) :: rest =>
    (name.quotedHiding hidden ++ ':' :: ' ' :: v.spelled hidden) :: spelledFields hidden rest

end

variable {hidden : Char → Bool}

/-- The text of one field of a mapping. -/
def spelledField (hidden : Char → Bool) (field : Text × Value) : Text :=
  field.1.quotedHiding hidden ++ ':' :: ' ' :: field.2.spelled hidden

theorem spelledItems_eq_map (items : List Value) :
    spelledItems hidden items = items.map (spelled hidden) := by
  induction items with
  | nil => rfl
  | cons v items ih => rw [spelledItems, ih, List.map_cons]

theorem spelledFields_eq_map (fields : List (Text × Value)) :
    spelledFields hidden fields = fields.map (spelledField hidden) := by
  induction fields with
  | nil => rfl
  | cons field fields ih => rw [spelledFields, ih, List.map_cons, spelledField]

theorem spelled_list (items : List Value) :
    (list items).spelled hidden = '[' :: enclosed ']' (items.map (spelled hidden)) := by
  rw [spelled, spelledItems_eq_map]

theorem spelled_map (fields : List (Text × Value)) :
    (map fields).spelled hidden = '\x7b' :: enclosed '\x7d' (fields.map (spelledField hidden)) := by
  rw [spelled, spelledFields_eq_map]

/-! ### What is written is spelled -/

theorem printedItems_eq (items : List Value) :
    printedItems items = enclosed ']' (items.map printedInside) := by
  induction items with
  | nil => rfl
  | cons v items ih =>
    cases items with
    | nil => rfl
    | cons w items =>
      rw [printedItems, ih]
      rfl

theorem printedFields_eq (fields : List (Text × Value)) :
    printedFields fields
      = enclosed '\x7d' (fields.map fun e => e.1.quoted ++ ':' :: ' ' :: e.2.printedInside) := by
  induction fields with
  | nil => rfl
  | cons e fields ih =>
    cases fields with
    | nil => rw [printedFields, List.map_singleton, enclosed, followed]
    | cons e' fields =>
      rw [printedFields, ih]
      simp only [List.map_cons, enclosed, followed, List.append_assoc, List.cons_append]

/-- **Inside a collection** a value is written as it is spelled with the library's own set of
characters without a picture. -/
theorem spelled_isHidden (v : Value) : v.spelled Text.isHidden = v.printedInside := by
  induction v using Parts.induction sizeOf_lt_of_mem_parts with
  | step v ih =>
    cases v with
    | list items =>
      have hitems : items.map (spelled Text.isHidden) = items.map printedInside :=
        List.map_congr_left ih
      rw [spelled_list, printedInside, printedItems_eq, hitems]
    | map fields =>
      have hfields : fields.map (spelledField Text.isHidden)
          = fields.map fun e => e.1.quoted ++ ':' :: ' ' :: e.2.printedInside := by
        apply List.map_congr_left
        intro e he
        rw [spelledField, Text.quotedHiding_isHidden, ih e.2 (List.mem_map_of_mem he)]
      rw [spelled_map, printedInside, printedFields_eq, hfields]
    -- only texts are spelled with characters that are hidden
    | text t => exact Text.quotedHiding_isHidden t
    | _ => rw [spelled, printedInside]

/-! ### What the text begins with -/

/-- The **kinds** of values that a text can tell. -/
inductive Kind where
  | truth
  | number
  | text
  | list
  | map
  deriving DecidableEq, Repr

/-- The kind of a value; nothing, `null` and doubles are of none. -/
def kind? : Value → Option Kind
  | bool _ => some .truth
  | unsigned _ => some .number
  | signed _ => some .number
  | text _ => some .text
  | list _ => some .list
  | map _ => some .map
  | _ => none

/-- The kind of value that begins with a character. -/
def kindOfFirst? (c : Char) : Option Kind :=
  if c = '-' || isDigit c then some .number
  else if c = '"' then some .text
  else if c = '[' then some .list
  else if c = '\x7b' then some .map
  else if c = 't' || c = 'f' then some .truth
  else none

/-- Whether a value is **plain**: neither nothing nor `null` nor a double stands in it, at any
depth. -/
def IsPlain (v : Value) : Prop :=
  ∀ w, Within w v → w.kind?.isSome

theorem IsPlain.kind?_isSome {v : Value} (h : v.IsPlain) : v.kind?.isSome :=
  h v (.refl v)

theorem IsPlain.of_mem_parts {v w : Value} (h : v.IsPlain) (hw : w ∈ v.parts) : w.IsPlain :=
  fun u hu => h u (hu.of_mem_parts hw)

theorem isPlain_iff {v : Value} : v.IsPlain ↔ v.kind?.isSome ∧ ∀ w ∈ v.parts, w.IsPlain := by
  refine ⟨fun h => ⟨h.kind?_isSome, fun _ hw => h.of_mem_parts hw⟩, ?_⟩
  rintro ⟨hkind, hparts⟩ u hu
  rcases Parts.within_iff.1 hu with rfl | ⟨w, hw, huw⟩
  · exact hkind
  · exact hparts w hw u huw

theorem spelled_of_integer? {v : Value} {n : Int} (h : v.integer? = some n) :
    v.spelled hidden = signedDecimal n := by
  cases v with
  | unsigned k =>
    obtain rfl := Option.some.inj h
    rw [spelled, signedDecimal, if_neg (by omega), Int.natAbs_natCast]
  | signed k =>
    obtain rfl := Option.some.inj h
    rw [spelled]
  | _ => cases h

theorem exists_bool {v : Value} (h : v.kind? = some .truth) : ∃ b, v = bool b := by
  cases v with
  | bool b => exact ⟨b, rfl⟩
  | _ => cases h

theorem exists_text {v : Value} (h : v.kind? = some .text) : ∃ t, v = text t := by
  cases v with
  | text t => exact ⟨t, rfl⟩
  | _ => cases h

theorem exists_list {v : Value} (h : v.kind? = some .list) : ∃ items, v = list items := by
  cases v with
  | list items => exact ⟨items, rfl⟩
  | _ => cases h

theorem exists_map {v : Value} (h : v.kind? = some .map) : ∃ fields, v = map fields := by
  cases v with
  | map fields => exact ⟨fields, rfl⟩
  | _ => cases h

theorem exists_integer? {v : Value} (h : v.kind? = some .number) : ∃ n, v.integer? = some n := by
  cases v with
  | unsigned k => exact ⟨_, rfl⟩
  | signed k => exact ⟨_, rfl⟩
  | _ => cases h

theorem exists_first_signedDecimal (n : Int) :
    ∃ c rest, signedDecimal n = c :: rest ∧ kindOfFirst? c = some .number := by
  rw [signedDecimal]
  split
  · exact ⟨_, _, rfl, rfl⟩
  · obtain ⟨c, rest, hdecimal⟩ := List.exists_cons_of_ne_nil (decimal_ne_nil n.natAbs)
    have hc : isDigit c = true := isDigit_of_mem_decimal (hdecimal ▸ List.mem_cons_self)
    refine ⟨c, rest, hdecimal, ?_⟩
    rw [kindOfFirst?, hc, Bool.or_true, if_pos rfl]

/-- **The first character** tells of what kind a value is. -/
theorem exists_first_spelled (hidden : Char → Bool) {v : Value} {k : Kind} (h : v.kind? = some k) :
    ∃ c rest, v.spelled hidden = c :: rest ∧ kindOfFirst? c = some k := by
  -- each kind of value begins in its own way
  cases k with
  | number =>
    obtain ⟨n, hn⟩ := exists_integer? h
    rw [spelled_of_integer? hn]
    exact exists_first_signedDecimal n
  | truth =>
    obtain ⟨b, rfl⟩ := exists_bool h
    cases b <;> exact ⟨_, _, rfl, rfl⟩
  | text =>
    obtain ⟨t, rfl⟩ := exists_text h
    exact ⟨_, _, rfl, rfl⟩
  | list =>
    obtain ⟨items, rfl⟩ := exists_list h
    exact ⟨_, _, rfl, rfl⟩
  | map =>
    obtain ⟨fields, rfl⟩ := exists_map h
    exact ⟨_, _, rfl, rfl⟩

theorem kind?_eq_of_spelled_append_eq {v w : Value} {s t : Text} (hv : v.kind?.isSome)
    (hw : w.kind?.isSome) (h : v.spelled hidden ++ s = w.spelled hidden ++ t) :
    v.kind? = w.kind? := by
  obtain ⟨k, hk⟩ := Option.isSome_iff_exists.1 hv
  obtain ⟨l, hl⟩ := Option.isSome_iff_exists.1 hw
  obtain ⟨c, rest, hvtext, hc⟩ := exists_first_spelled hidden hk
  obtain ⟨d, rest', hwtext, hd⟩ := exists_first_spelled hidden hl
  -- the first character tells the kind
  rw [hvtext, hwtext] at h
  calc v.kind? = some k := hk
    _ = kindOfFirst? c := hc.symm
    _ = kindOfFirst? d := by rw [(List.cons.inj h).1]
    _ = some l := hd
    _ = w.kind? := hl.symm

/-- No value begins like the bracket that closes a list. -/
theorem spelled_append_ne_bracket {v : Value} (h : v.kind?.isSome) (s t : Text) :
    v.spelled hidden ++ s ≠ ']' :: t := by
  intro heq
  obtain ⟨k, hk⟩ := Option.isSome_iff_exists.1 h
  obtain ⟨c, rest, htext, hc⟩ := exists_first_spelled hidden hk
  rw [htext] at heq
  rw [(List.cons.inj heq).1] at hc
  cases hc

/-! ### Values that are read alike -/

/-- Whether two values **read alike**: they are the same, but that whole numbers may be of different
types. -/
inductive SameReading : Value → Value → Prop
  | bool (b : Bool) : SameReading (bool b) (bool b)
  | number {v w : Value} {n : Int} (hv : v.integer? = some n) (hw : w.integer? = some n) :
    SameReading v w
  | text (t : Text) : SameReading (text t) (text t)
  | list {items items' : List Value} (h : List.Forall₂ SameReading items items') :
    SameReading (list items) (list items')
  /-- Fields are in the same order. -/
  | map {fields fields' : List (Text × Value)} (hnames : fields.map (·.1) = fields'.map (·.1))
    (hvalues : List.Forall₂ SameReading (fields.map (·.2)) (fields'.map (·.2))) :
    SameReading (map fields) (map fields')

theorem SameReading.of_fields {fields fields' : List (Text × Value)}
    (h : List.Forall₂ (fun e f => e.1 = f.1 ∧ SameReading e.2 f.2) fields fields') :
    SameReading (.map fields) (.map fields') := by
  apply SameReading.map
  · have hnames : List.Forall₂ Eq (fields.map (·.1)) (fields'.map (·.1)) := by
      rw [List.forall₂_map_left_iff, List.forall₂_map_right_iff]
      exact h.imp fun _ _ hef => hef.1
    rwa [List.forall₂_eq_eq_eq] at hnames
  · rw [List.forall₂_map_left_iff, List.forall₂_map_right_iff]
    exact h.imp fun _ _ hef => hef.2

/-- Fields are read off, if their values are. -/
theorem spelledField_append_inj {e f : Text × Value} {s t : Text}
    (hread : e.2.spelled hidden ++ s = f.2.spelled hidden ++ t → SameReading e.2 f.2 ∧ s = t)
    (h : spelledField hidden e ++ s = spelledField hidden f ++ t) :
    (e.1 = f.1 ∧ SameReading e.2 f.2) ∧ s = t := by
  rw [spelledField, spelledField, List.append_assoc, List.append_assoc] at h
  obtain ⟨hname, hrest⟩ := Text.quotedHiding_append_inj h
  simp only [List.cons_append, List.cons.injEq, true_and] at hrest
  obtain ⟨hvalue, hst⟩ := hread hrest
  exact ⟨⟨hname, hvalue⟩, hst⟩

theorem spelled_bool_append_inj {b b' : Bool} {s t : Text}
    (h : (bool b).spelled hidden ++ s = (bool b').spelled hidden ++ t) : b = b' ∧ s = t := by
  cases b <;> cases b'
  · exact ⟨rfl, List.append_cancel_left h⟩
  · exact absurd (List.cons.inj h).1 (by decide)
  · exact absurd (List.cons.inj h).1 (by decide)
  · exact ⟨rfl, List.append_cancel_left h⟩

/-- **A plain value is read off**, whatever follows it, if no digit does. -/
theorem spelled_append_inj {v w : Value} (hv : v.IsPlain) (hw : w.IsPlain) {s t : Text}
    (hs : Stops isDigit s) (ht : Stops isDigit t)
    (h : v.spelled hidden ++ s = w.spelled hidden ++ t) : SameReading v w ∧ s = t := by
  induction v using Parts.induction sizeOf_lt_of_mem_parts generalizing w s t with
  | step v ih =>
    obtain ⟨k, hk⟩ := Option.isSome_iff_exists.1 hv.kind?_isSome
    have hl : w.kind? = some k :=
      (kind?_eq_of_spelled_append_eq hv.kind?_isSome hw.kind?_isSome h).symm.trans hk
    -- what the two values hold is read off
    have hparts {x y : Value} (hx : x ∈ v.parts) (hy : y ∈ w.parts) {s t : Text}
        (hs : Stops isDigit s) (ht : Stops isDigit t)
        (hxy : x.spelled hidden ++ s = y.spelled hidden ++ t) : SameReading x y ∧ s = t :=
      ih x hx (hv.of_mem_parts hx) (hw.of_mem_parts hy) hs ht hxy
    cases k with
    | truth =>
      obtain ⟨b, rfl⟩ := exists_bool hk
      obtain ⟨b', rfl⟩ := exists_bool hl
      obtain ⟨rfl, hst⟩ := spelled_bool_append_inj h
      exact ⟨.bool b, hst⟩
    | number =>
      obtain ⟨m, hm⟩ := exists_integer? hk
      obtain ⟨n, hn⟩ := exists_integer? hl
      rw [spelled_of_integer? hm, spelled_of_integer? hn] at h
      obtain ⟨rfl, hst⟩ := signedDecimal_append_inj hs ht h
      exact ⟨.number hm hn, hst⟩
    | text =>
      obtain ⟨a, rfl⟩ := exists_text hk
      obtain ⟨a', rfl⟩ := exists_text hl
      rw [spelled, spelled] at h
      obtain ⟨rfl, hst⟩ := Text.quotedHiding_append_inj h
      exact ⟨.text a, hst⟩
    | list =>
      obtain ⟨items, rfl⟩ := exists_list hk
      obtain ⟨items', rfl⟩ := exists_list hl
      rw [spelled_list, spelled_list] at h
      have hfirst : ∀ x ∈ items ++ items', ∀ s t, x.spelled hidden ++ s ≠ ']' :: t := by
        intro x hx
        apply spelled_append_ne_bracket
        rcases List.mem_append.1 hx with hx | hx
        · exact (hv.of_mem_parts hx).kind?_isSome
        · exact (hw.of_mem_parts hx).kind?_isSome
      obtain ⟨hitems, hst⟩ := enclosed_append_inj (by decide) (by decide) hfirst
        (fun x hx y hy _ _ hs ht => hparts hx hy hs ht) (List.cons.inj h).2
      exact ⟨.list hitems, hst⟩
    | map =>
      obtain ⟨fields, rfl⟩ := exists_map hk
      obtain ⟨fields', rfl⟩ := exists_map hl
      rw [spelled_map, spelled_map] at h
      have hfirst : ∀ e ∈ fields ++ fields', ∀ s t, spelledField hidden e ++ s ≠ '\x7d' :: t :=
        fun e _ s t heq => absurd (List.cons.inj heq).1 (by decide)
      obtain ⟨hfields, hst⟩ := enclosed_append_inj (by decide) (by decide) hfirst
        (fun e he f hf _ _ hs ht => spelledField_append_inj
          (hparts (List.mem_map_of_mem he) (List.mem_map_of_mem hf) hs ht)) (List.cons.inj h).2
      exact ⟨.of_fields hfields, hst⟩

/-- **Values that read alike** are written alike. -/
theorem SameReading.spelled_eq {v w : Value} (h : SameReading v w) :
    v.spelled hidden = w.spelled hidden := by
  induction v using Parts.induction sizeOf_lt_of_mem_parts generalizing w with
  | step v ih =>
    -- what the two values hold is written alike
    have hparts {ws : List Value} (hws : List.Forall₂ SameReading v.parts ws) :
        v.parts.map (spelled hidden) = ws.map (spelled hidden) :=
      hws.map_eq_map fun x hx _ => ih x hx
    cases h with
    | bool b => rfl
    | number hv hw => rw [spelled_of_integer? hv, spelled_of_integer? hw]
    | text t => rfl
    | @list items items' hitems =>
      have htexts : items.map (spelled hidden) = items'.map (spelled hidden) := hparts hitems
      rw [spelled_list, spelled_list, htexts]
    | @map fields fields' hnames hvalues =>
      have htexts : (fields.map (·.2)).map (spelled hidden)
          = (fields'.map (·.2)).map (spelled hidden) := hparts hvalues
      have hzip (l : List (Text × Value)) : l.map (spelledField hidden)
          = List.zipWith (fun name text => name.quotedHiding hidden ++ ':' :: ' ' :: text)
            (l.map (·.1)) ((l.map (·.2)).map (spelled hidden)) := by
        rw [List.map_map, List.zipWith_map, List.zipWith_self]
        rfl
      rw [spelled_map, spelled_map, hzip, hzip, hnames, htexts]

/-- **The text of a collection is unambiguous**: two plain values other than texts are written the
same just if they read alike. This holds whichever characters have no picture, and a text that is
quoted in it ends where its quotes do, whatever it holds and whatever follows. -/
theorem printed_eq_iff_sameReading {v w : Value} (hv : v.IsPlain) (hw : w.IsPlain)
    (hvtext : v.text? = none) (hwtext : w.text? = none) :
    (v.printed = w.printed ↔ SameReading v w) ∧
      ∀ hidden, (v.spelled hidden = w.spelled hidden ↔ SameReading v w) ∧
        ∀ a b s t : Text, a.quotedHiding hidden ++ s = b.quotedHiding hidden ++ t →
          a = b ∧ s = t := by
  have hspelled (hidden : Char → Bool) :
      v.spelled hidden = w.spelled hidden ↔ SameReading v w := by
    refine ⟨fun h => ?_, SameReading.spelled_eq⟩
    exact (spelled_append_inj hv hw stops_nil stops_nil (congrArg (· ++ []) h)).1
  refine ⟨?_, fun hidden => ⟨hspelled hidden, fun _ _ _ _ => Text.quotedHiding_append_inj⟩⟩
  -- what is printed is the spelling in which the unprintable characters are hidden
  rw [← printedInside_eq_printed hvtext, ← printedInside_eq_printed hwtext, ← spelled_isHidden,
    ← spelled_isHidden]
  exact hspelled Text.isHidden

/-- A mapping with a list and a number. -/
def twoFields (items : List Value) (n : Value) : Value :=
  map [("k".toList, list items), ("n".toList, n)]

/-- Two texts, and a number of a type without a sign. -/
def twoTexts : Value :=
  twoFields [text "a".toList, text "b".toList] (unsigned 1)

/-- One text that looks like two, and the same number of the other type. -/
def oneText : Value :=
  twoFields [text "a\", \"b".toList] (signed 1)

theorem isPlain_of_parts_eq_nil {v : Value} (hkind : v.kind?.isSome) (h : v.parts = []) :
    v.IsPlain :=
  isPlain_iff.2 ⟨hkind, by simp [h]⟩

theorem isPlain_twoFields {items : List Value} {n : Value} (hitems : ∀ v ∈ items, v.IsPlain)
    (hn : n.IsPlain) : (twoFields items n).IsPlain := by
  refine isPlain_iff.2 ⟨rfl, ?_⟩
  simp only [twoFields, parts, List.map_cons, List.map_nil, List.forall_mem_cons]
  exact ⟨isPlain_iff.2 ⟨rfl, hitems⟩, hn, fun _ h => absurd h List.not_mem_nil⟩

theorem isPlain_twoTexts : twoTexts.IsPlain := by
  apply isPlain_twoFields
  · simp only [List.forall_mem_cons]
    exact ⟨isPlain_of_parts_eq_nil rfl rfl, isPlain_of_parts_eq_nil rfl rfl,
      fun _ h => absurd h List.not_mem_nil⟩
  · exact isPlain_of_parts_eq_nil rfl rfl

theorem isPlain_oneText : oneText.IsPlain := by
  apply isPlain_twoFields
  · simp only [List.forall_mem_cons]
    exact ⟨isPlain_of_parts_eq_nil rfl rfl, fun _ h => absurd h List.not_mem_nil⟩
  · exact isPlain_of_parts_eq_nil rfl rfl

/-- The one does not imitate the other. -/
theorem printed_twoTexts_eq_iff :
    twoTexts.IsPlain ∧ oneText.IsPlain ∧ twoTexts.text? = none ∧ oneText.text? = none ∧
      (twoTexts.printed = oneText.printed ↔ SameReading twoTexts oneText) ∧
        ∀ hidden, (twoTexts.spelled hidden = oneText.spelled hidden ↔
            SameReading twoTexts oneText) ∧
          ∀ a b s t : Text, a.quotedHiding hidden ++ s = b.quotedHiding hidden ++ t →
            a = b ∧ s = t :=
  ⟨isPlain_twoTexts, isPlain_oneText, rfl, rfl,
    printed_eq_iff_sameReading isPlain_twoTexts isPlain_oneText rfl rfl⟩

end Value

end Stencil
