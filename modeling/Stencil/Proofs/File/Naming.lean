import Stencil.Proofs.File.Confined

/-!
# Names after files

A template that is read from a file is named after it: by the names on the path to the file, with
slashes between them, where the last name loses its last extension. A name whose only point stands
in front has no extension, and keeps the point.

* `FilePath.isWithoutExtension_iff` — `stem` is what a name is without its extension;
* `FilePath.isNameAfter_iff` — and `templateName` is the name after a path.
-/

namespace Stencil.FilePath

/-! ### Extensions -/

/-- Whether `s` is what a file name **is without its last extension**, if it has one. -/
def IsWithoutExtension (name s : Text) : Prop :=
  '.' ∉ name.tail ∧ s = name ∨
    s ≠ [] ∧ ∃ extension, '.' ∉ extension ∧ name = s ++ '.' :: extension

/-- A character that occurs has a last occurrence. -/
theorem exists_last_of_mem {c : Char} {t : Text} (h : c ∈ t) :
    ∃ before after, t = before ++ c :: after ∧ c ∉ after := by
  obtain ⟨behind, ahead, hreverse, hbehind⟩ := List.eq_append_cons_of_mem (List.mem_reverse.2 h)
  refine ⟨ahead.reverse, behind.reverse, ?_, fun hmem => hbehind (List.mem_reverse.1 hmem)⟩
  rw [← List.reverse_reverse t, hreverse, List.reverse_append, List.reverse_cons, List.append_assoc,
    List.singleton_append]

theorem stem_of_notMem_tail {name : Text} (h : '.' ∉ name.tail) : stem name = name := by
  cases name with
  | nil => rfl
  | cons c t =>
    by_cases hc : c = '.'
    · -- the only point is in front
      subst hc
      have hcut : Text.cutAtLast? (· = '.') ('.' :: t) = some ([], t) :=
        Text.cutAtLast?_append_cons [] (forall_eq_false_of_notMem h) rfl
      rw [stem, cutExtension?, hcut]
      rfl
    · have hnone : '.' ∉ c :: t := by
        rw [List.mem_cons, not_or]
        exact ⟨Ne.symm hc, h⟩
      rw [stem, cutExtension?, Text.cutAtLast?_eq_none (forall_eq_false_of_notMem hnone)]
      rfl

theorem stem_append {s extension : Text} (hs : s ≠ []) (h : '.' ∉ extension) :
    stem (s ++ '.' :: extension) = s := by
  obtain ⟨c, t, rfl⟩ := List.exists_cons_of_ne_nil hs
  rw [stem, cutExtension?, Text.cutAtLast?_append_cons _ (forall_eq_false_of_notMem h) rfl]
  rfl

/-- **The stem of a file name** is the name without its last extension. -/
theorem isWithoutExtension_iff {name s : Text} : IsWithoutExtension name s ↔ s = stem name := by
  constructor
  · rintro (⟨h, rfl⟩ | ⟨hs, extension, h, rfl⟩)
    · exact (stem_of_notMem_tail h).symm
    · exact (stem_append hs h).symm
  · rintro rfl
    -- a dot in front of everything begins no extension, so one is looked for behind it
    by_cases h : '.' ∈ name.tail
    · obtain ⟨c, t, rfl⟩ : ∃ c t, name = c :: t :=
        List.exists_cons_of_ne_nil fun hnil => by rw [hnil] at h; cases h
      obtain ⟨before, extension, ht, hextension⟩ := exists_last_of_mem h
      obtain rfl : t = before ++ '.' :: extension := ht
      have hne : c :: before ≠ [] := List.cons_ne_nil _ _
      rw [← List.cons_append, stem_append hne hextension]
      exact .inr ⟨hne, extension, hextension, rfl⟩
    · exact .inl ⟨h, stem_of_notMem_tail h⟩

/-! ### Paths -/

/-- Whether a template is **named after the file** that some names lead to. -/
def IsNameAfter (name : Text) (names : List Text) : Prop :=
  ∃ outer last s, names = outer ++ [last] ∧ IsWithoutExtension last s ∧
    name = Text.unpieces '/' (outer ++ [s])

theorem IsNameAfter.eq {name name' : Text} {names : List Text} (h : IsNameAfter name names)
    (h' : IsNameAfter name' names) : name = name' := by
  obtain ⟨outer, last, s, rfl, hs, rfl⟩ := h
  obtain ⟨outer', last', s', heq, hs', rfl⟩ := h'
  obtain ⟨rfl, hlast⟩ := List.append_inj' heq rfl
  obtain rfl := List.singleton_inj.1 hlast
  rw [isWithoutExtension_iff.1 hs, isWithoutExtension_iff.1 hs']

/-- **A template is named after its path** by the names on it. -/
theorem isNameAfter_iff {name : Text} {names : List Text} (hne : names ≠ [])
    (hnames : ∀ n ∈ names, '/' ∉ n ∧ '\\' ∉ n) :
    IsNameAfter name names ↔ name = templateName (Text.unpieces '/' names) := by
  obtain ⟨outer, last, rfl⟩ : ∃ outer last, names = outer ++ [last] :=
    ⟨_, _, (List.dropLast_concat_getLast hne).symm⟩
  have hbackslash : '\\' ∉ Text.unpieces '/' (outer ++ [last]) :=
    notMem_unpieces (by decide) fun n hn => (hnames n hn).2
  rw [templateName_unpieces hbackslash (hnames last List.mem_concat_self).1]
  -- one name is made after the file, and no other one
  have hname : IsNameAfter (Text.unpieces '/' (outer ++ [stem last])) (outer ++ [last]) :=
    ⟨outer, last, stem last, rfl, isWithoutExtension_iff.2 rfl, rfl⟩
  constructor
  · exact fun h => h.eq hname
  · rintro rfl
    exact hname

end Stencil.FilePath
