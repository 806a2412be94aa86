import Stencil.Proofs.Tag.Locality
import Stencil.Proofs.Text.Trimming
import Stencil.Text.Utf8

/-!
# The grammar of tags

A tag is written as two opening brackets, whitespace, a form that says which tag it is, whitespace
again, and two closing brackets (`Tag.IsSpelling`). The grammar of forms is `Tag.Form`, one rule for
each kind of tag. The lexer trims, cuts and compares instead, and comes to the same:

* `Tag.classify?_of_form` and `Tag.form_of_classify?_trim` — what is left of the inside of a tag
  without the whitespace at its ends is taken for a tag if and only if it is a form of that tag;
* `Tag.lex?_of_isSpelling` and `Tag.isSpelling_of_lex?` — so the lexer reads off the front of a text
  the spellings of tags and nothing else;
* `Tag.lex?_iff_isSpelling` — the grammar settles which tag a text begins with and where it ends,
  and what is written by it is read back, whatever follows.

No form begins or ends in whitespace, and none holds a closing bracket. The first is why trimming
finds the form, the second why the first closing brackets are those of the tag.
-/

namespace Stencil

namespace Text

/-- Whether a text is **whitespace**, or empty: spaces, tabs, line feeds, form feeds and carriage
returns. -/
def IsBlanks (t : Text) : Prop :=
  ∀ c ∈ t, c ∈ [' ', '\t', '\n', '\x0c', '\r']

theorem isBlank_iff {c : Char} : isBlank c = true ↔ c ∈ [' ', '\t', '\n', '\x0c', '\r'] := by
  simp [isBlank, or_assoc]

theorem isBlanks_iff {t : Text} : t.IsBlanks ↔ ∀ c ∈ t, isBlank c = true :=
  forall₂_congr fun _ _ => isBlank_iff.symm

/-- No blanks **hold a closing bracket**. -/
theorem IsBlanks.not_mem {t : Text} (h : t.IsBlanks) : '\x7d' ∉ t :=
  fun hmem => absurd (h _ hmem) (by decide)

/-- Whether a text is a **word** of letters, numbers and some marks. -/
def IsWord (marks : List Char) (t : Text) : Prop :=
  t ≠ [] ∧ ∀ c ∈ t, isAlphanumeric c = true ∨ c ∈ marks

end Text

/-! ### Forms -/

/-- The marks in paths. -/
def pathMarks : List Char := ['_', '-', '.', '@', '$']

/-- The marks in the names of partials. -/
def nameMarks : List Char := ['_', '-', '.', '/']

/-- Whether a text is a **form** of a tag: what stands between its brackets, without the whitespace
next to them. -/
inductive Tag.Form : Tag → Text → Prop where
  | inclusion {blanks name : Text} (hblanks : blanks.IsBlanks) (hname : name.IsWord nameMarks) :
    Form (.inclusion name) ('>' :: (blanks ++ name))
  | opening {kind : BlockKind} {blanks path : Text} (hblanks : blanks.IsBlanks) (hne : blanks ≠ [])
      (hpath : path.IsWord pathMarks) :
    Form (.opening kind path) ('#' :: (kind.keyword ++ blanks ++ path))
  | closing {kind : BlockKind} {blanks : Text} (hblanks : blanks.IsBlanks) :
    Form (.closing kind) ('/' :: (blanks ++ kind.keyword))
  | alternative : Form .alternative elseWord
  | value {path : Text} (hpath : path.IsWord pathMarks) (hne : path ≠ elseWord) :
    Form (.value path) path

/-- Whether a text is a **spelling** of a tag, with its brackets. -/
def Tag.IsSpelling (tag : Tag) (lexeme : Text) : Prop :=
  ∃ before form after : Text, before.IsBlanks ∧ tag.Form form ∧ after.IsBlanks ∧
    lexeme = ['\x7b', '\x7b'] ++ before ++ form ++ after ++ ['\x7d', '\x7d']

/-! ### Characters of forms -/

theorem isPath_iff {t : Text} : isPath t = true ↔ t.IsWord pathMarks := by
  simp [isPath, Text.IsWord, isPathChar, pathMarks, or_assoc]

theorem isPartialName_iff {t : Text} : isPartialName t = true ↔ t.IsWord nameMarks := by
  simp [isPartialName, Text.IsWord, isNameChar, nameMarks, or_assoc]

/-- No whitespace and no closing bracket is a letter, a number or a mark. -/
theorem Text.IsWord.not_mem {marks : List Char} {t : Text} (h : t.IsWord marks)
    (hmarks : marks = pathMarks ∨ marks = nameMarks) {c : Char} (hc : c ∈ t) :
    isBlank c = false ∧ c ≠ '\x7d' := by
  -- neither a blank nor a bracket is a character of a word
  have hclass : [' ', '\t', '\n', '\x0c', '\r', '\x7d'].all fun d =>
      !isAlphanumeric d && d ∉ pathMarks && d ∉ nameMarks := by decide
  have hnot {d : Char} (hd : d ∈ [' ', '\t', '\n', '\x0c', '\r', '\x7d']) : d ∉ t := by
    intro hmem
    have hall := List.all_eq_true.1 hclass d hd
    simp only [Bool.and_eq_true, Bool.not_eq_true', decide_eq_true_iff] at hall
    obtain ⟨⟨halpha, hpath⟩, hname⟩ := hall
    rcases h.2 d hmem with hword | hword
    · rw [halpha] at hword
      cases hword
    · rcases hmarks with rfl | rfl
      · exact hpath hword
      · exact hname hword
  refine ⟨?_, fun heq => hnot (by decide) (heq ▸ hc)⟩
  rw [← Bool.not_eq_true, isBlank_iff]
  exact fun hblank => hnot (List.mem_append_left ['\x7d'] hblank) hc

theorem BlockKind.not_mem_keyword {kind : BlockKind} {c : Char} (hc : c ∈ kind.keyword) :
    Text.isBlank c = false ∧ c ≠ '\x7d' := by
  have hall : kind.keyword.all fun d => !Text.isBlank d && d ≠ '\x7d' := by
    cases kind <;> decide
  have hboth := List.all_eq_true.1 hall c hc
  simp only [Bool.and_eq_true, Bool.not_eq_true', decide_eq_true_iff] at hboth
  exact hboth

namespace Tag.Form

variable {tag : Tag} {form : Text}

/-- A form **neither begins nor ends** in whitespace. -/
theorem trimmed (h : tag.Form form) : form.Trimmed Text.isBlank := by
  -- the marker in front is no whitespace, and what the form ends in is a word
  have behind {c : Char} (hc : Text.isBlank c = false) (t : Text) {word : Text} (hne : word ≠ [])
      (hword : ∀ d ∈ word, Text.isBlank d = false) :
      Text.Trimmed Text.isBlank (c :: (t ++ word)) := by
    refine ⟨fun d hd => Option.some.inj hd ▸ hc, fun d hd => hword d ?_⟩
    rw [← List.cons_append, List.getLast?_append, List.getLast?_eq_some_getLast hne] at hd
    exact Option.some.inj hd ▸ List.getLast_mem hne
  cases h with
  | inclusion hblanks hname =>
    exact behind rfl _ hname.1 fun d hd => (hname.not_mem (.inr rfl) hd).1
  | opening hblanks hne hpath =>
    exact behind rfl _ hpath.1 fun d hd => (hpath.not_mem (.inl rfl) hd).1
  | @closing kind _ hblanks =>
    have hne : kind.keyword ≠ [] := by cases kind <;> decide
    exact behind rfl _ hne fun d hd => (BlockKind.not_mem_keyword hd).1
  | alternative =>
    have hall : elseWord.all fun d => !Text.isBlank d := by decide
    exact Text.trimmed_of_forall fun d hd =>
      (Bool.not_eq_true' _).mp (List.all_eq_true.1 hall d hd)
  | value hpath hne =>
    exact Text.trimmed_of_forall fun d hd => (hpath.not_mem (.inl rfl) hd).1

/-- No form **holds a closing bracket**. -/
theorem not_mem (h : tag.Form form) : '\x7d' ∉ form := by
  cases h with
  | @inclusion blanks name hblanks hname =>
    have hword : '\x7d' ∉ name := fun hmem => (hname.not_mem (.inr rfl) hmem).2 rfl
    simp [hblanks.not_mem, hword]
  | @opening kind blanks path hblanks hne hpath =>
    have hword : '\x7d' ∉ path := fun hmem => (hpath.not_mem (.inl rfl) hmem).2 rfl
    have hkeyword : '\x7d' ∉ kind.keyword := fun hmem => (BlockKind.not_mem_keyword hmem).2 rfl
    simp [hblanks.not_mem, hword, hkeyword]
  | @closing kind blanks hblanks =>
    have hkeyword : '\x7d' ∉ kind.keyword := fun hmem => (BlockKind.not_mem_keyword hmem).2 rfl
    simp [hblanks.not_mem, hkeyword]
  | alternative => decide
  | value hpath hne => exact fun hmem => (hpath.not_mem (.inl rfl) hmem).2 rfl

end Tag.Form

/-! ### Classifying -/

namespace BlockKind

theorem ofKeyword?_keyword (kind : BlockKind) : ofKeyword? kind.keyword = some kind := by
  cases kind <;> decide

theorem keyword_of_ofKeyword? {word : Text} {kind : BlockKind} (h : ofKeyword? word = some kind) :
    word = kind.keyword := by
  have hfound := List.find?_some h
  exact (of_decide_eq_true hfound).symm

end BlockKind

namespace Tag

/-- **A form is taken for its tag.** -/
theorem classify?_of_form {tag : Tag} {form : Text} (h : tag.Form form) :
    classify? form = some tag := by
  have hword {marks : List Char} {t : Text} (ht : t.IsWord marks)
      (hmarks : marks = pathMarks ∨ marks = nameMarks) : t.Trimmed Text.isBlank :=
    Text.trimmed_of_forall fun d hd => (ht.not_mem hmarks hd).1
  have htrim {a m : Text} (ha : a.IsBlanks) (hm : m.Trimmed Text.isBlank) :
      Text.trim Text.isBlank (a ++ m) = m := by
    have := Text.trim_append (Text.isBlanks_iff.1 ha) (fun _ hc => absurd hc List.not_mem_nil) hm
    rwa [List.append_nil] at this
  cases h with
  | inclusion hblanks hname =>
    simp only [classify?, htrim hblanks (hword hname (.inr rfl)), isPartialName_iff.2 hname,
      if_true]
  | @opening kind blanks path hblanks hne hpath =>
    -- the keyword ends at the first of the blanks, and the path begins behind the last
    obtain ⟨c, blanks, rfl⟩ := List.exists_cons_of_ne_nil hne
    obtain ⟨hc, hblanks⟩ := List.forall_mem_cons.1 hblanks
    have hcut : Text.cutAt? Text.isBlank (kind.keyword ++ c :: blanks ++ path)
        = some (kind.keyword, blanks ++ path) := by
      rw [List.append_assoc, List.cons_append]
      exact Text.cutAt?_append_cons _ (fun d hd => (BlockKind.not_mem_keyword hd).1)
        (Text.isBlank_iff.2 hc)
    simp only [classify?, hcut, Option.bind_eq_bind, Option.bind_some,
      BlockKind.ofKeyword?_keyword, htrim hblanks (hword hpath (.inl rfl)), isPath_iff.2 hpath,
      if_true]
  | @closing kind blanks hblanks =>
    have hkeyword : kind.keyword.Trimmed Text.isBlank :=
      Text.trimmed_of_forall fun d hd => (BlockKind.not_mem_keyword hd).1
    simp only [classify?, htrim hblanks hkeyword, BlockKind.ofKeyword?_keyword, Option.map_some]
  | alternative => decide
  | value hpath hne =>
    have hmarker (c : Char) (hc : isPathChar c = false) (t : Text) : form ≠ c :: t := by
      rintro rfl
      have := isPath_iff.2 hpath
      rw [isPath, List.all_cons, hc] at this
      simp at this
    rw [classify?, if_neg hne, if_pos (isPath_iff.2 hpath)]
    · exact fun name heq => hmarker '>' rfl name heq
    · exact fun rest heq => hmarker '#' rfl rest heq
    · exact fun word heq => hmarker '/' rfl word heq

/-- **What is taken for a tag is a form of it**, if it has no whitespace at its ends. -/
theorem form_of_classify? {tag : Tag} {inner : Text} (hinner : inner.Trimmed Text.isBlank)
    (h : classify? inner = some tag) : tag.Form inner := by
  unfold classify? at h
  split at h
  · next name =>
    obtain ⟨blanks, hblanks, hname⟩ := Text.Trimmed.exists_eq_append_trim (u := ['>']) hinner
    simp only [Option.ite_none_right_eq_some, Option.some.injEq] at h
    obtain ⟨hpartial, rfl⟩ := h
    have hform := Form.inclusion (Text.isBlanks_iff.2 hblanks) (isPartialName_iff.1 hpartial)
    rwa [← hname] at hform
  · next rest =>
    obtain ⟨⟨word, path⟩, hcut, h⟩ := Option.bind_eq_some_iff.1 h
    obtain ⟨kind, hkind, h⟩ := Option.bind_eq_some_iff.1 h
    simp only [Option.ite_none_right_eq_some, Option.some.injEq] at h
    obtain ⟨hpath, rfl⟩ := h
    obtain ⟨c, hc, rfl, -⟩ := Text.cutAt?_eq_some hcut
    have hend : Text.Trimmed Text.isBlank ('#' :: (word ++ [c]) ++ path) := by
      rwa [List.append_cons, ← List.cons_append] at hinner
    -- the blank at which the keyword ends, and those before the path
    obtain ⟨blanks, hblanks, hsplit⟩ := hend.exists_eq_append_trim
    have hform := @Form.opening kind (c :: blanks) (Text.trim Text.isBlank path)
      (Text.isBlanks_iff.2 (List.forall_mem_cons.2 ⟨hc, hblanks⟩)) (List.cons_ne_nil _ _)
      (isPath_iff.1 hpath)
    rwa [← BlockKind.keyword_of_ofKeyword? hkind, List.append_assoc, List.cons_append,
      ← hsplit] at hform
  · next word =>
    obtain ⟨kind, hkind, rfl⟩ := Option.map_eq_some_iff.1 h
    obtain ⟨blanks, hblanks, hword⟩ := Text.Trimmed.exists_eq_append_trim (u := ['/']) hinner
    have hform := @Form.closing kind blanks (Text.isBlanks_iff.2 hblanks)
    rwa [← BlockKind.keyword_of_ofKeyword? hkind, ← hword] at hform
  · split at h
    · next helse =>
      obtain rfl := Option.some.inj h
      rw [helse]
      exact .alternative
    · next hne =>
      rw [Option.ite_none_right_eq_some] at h
      obtain ⟨hpath, h⟩ := h
      obtain rfl := Option.some.inj h
      exact .value (isPath_iff.1 hpath) hne

/-! ### Lexing -/

/-- **What the lexer reads** is a spelling of the tag. -/
theorem isSpelling_of_lex? {t : Text} {l : Lexed} (h : lex? t = some l) :
    l.tag.IsSpelling l.lexeme := by
  obtain ⟨inner, -, htag, -, hlexeme⟩ := lex?_cons_cons h
  obtain ⟨before, after, hbefore, hafter, hinner, htrimmed⟩ :=
    Text.exists_eq_append_trim Text.isBlank inner
  refine ⟨before, _, after, Text.isBlanks_iff.2 hbefore, form_of_classify? htrimmed htag,
    Text.isBlanks_iff.2 hafter, ?_⟩
  rw [List.append_assoc _ before, List.append_assoc _ _ after, ← hinner]
  exact hlexeme

theorem cutAtClose?_of_not_mem {inner : Text} (h : '\x7d' ∉ inner) (rest : Text) :
    cutAtClose? (inner ++ '\x7d' :: '\x7d' :: rest) = some (inner, rest) := by
  induction inner with
  | nil => rfl
  | cons c inner ih =>
    obtain ⟨hc, hinner⟩ := List.ne_and_not_mem_of_not_mem_cons h
    rw [List.cons_append, cutAtClose?_cons fun hboth => hc hboth.1.symm, ih hinner]
    rfl

/-- **A spelling is read** as its tag, whatever follows. -/
theorem lex?_of_isSpelling {tag : Tag} {lexeme : Text} (h : tag.IsSpelling lexeme) (rest : Text) :
    lex? (lexeme ++ rest) = some ⟨tag, lexeme, rest⟩ := by
  obtain ⟨before, form, after, hbefore, hform, hafter, rfl⟩ := h
  have hinner : '\x7d' ∉ before ++ form ++ after := by
    simp [hbefore.not_mem, hafter.not_mem, hform.not_mem]
  -- blanks are trimmed off what stands between the brackets
  have htrim : Text.trim Text.isBlank (before ++ form ++ after) = form :=
    Text.trim_append (Text.isBlanks_iff.1 hbefore) (Text.isBlanks_iff.1 hafter) hform.trimmed
  have hshape : ['\x7b', '\x7b'] ++ before ++ form ++ after ++ ['\x7d', '\x7d'] ++ rest
      = '\x7b' :: '\x7b' :: (before ++ form ++ after ++ '\x7d' :: '\x7d' :: rest) := by
    simp
  rw [hshape, lex?, cutAtClose?_of_not_mem hinner]
  simp only [Option.bind_eq_bind, Option.bind_some, htrim, classify?_of_form hform]
  simp

/-- **The lexer accepts exactly the grammar of tags**: a text begins with a tag that takes so many
bytes if and only if its first bytes, as many, are a spelling of the tag. So the text settles the
tag and where it ends, and a tag that is written in any of its spellings is read back from there,
whatever follows. -/
theorem lex?_iff_isSpelling :
    (∀ (input : Text) (tag : Tag) (length : Nat),
      (∃ l, lex? input = some l ∧ l.tag = tag ∧ l.lexeme.size = length) ↔
        ∃ lexeme rest, input = lexeme ++ rest ∧ lexeme.size = length ∧ tag.IsSpelling lexeme) ∧
    (∀ (tag tag' : Tag) (lexeme lexeme' rest rest' : Text), lexeme ++ rest = lexeme' ++ rest' →
      tag.IsSpelling lexeme → tag'.IsSpelling lexeme' → tag = tag' ∧ lexeme = lexeme') ∧
    ∀ (tag : Tag) (lexeme rest : Text), tag.IsSpelling lexeme →
      lex? (lexeme ++ rest) = some ⟨tag, lexeme, rest⟩ := by
  refine ⟨fun input tag length => ⟨?_, ?_⟩, ?_, fun tag lexeme rest h => lex?_of_isSpelling h rest⟩
  · rintro ⟨l, hl, rfl, rfl⟩
    exact ⟨l.lexeme, l.rest, (lexeme_append_rest hl).symm, rfl, isSpelling_of_lex? hl⟩
  · rintro ⟨lexeme, rest, rfl, rfl, h⟩
    exact ⟨_, lex?_of_isSpelling h rest, rfl, rfl⟩
  · intro tag tag' lexeme lexeme' rest rest' heq h h'
    -- both spellings are read off the same text
    have hread := lex?_of_isSpelling h rest
    rw [heq, lex?_of_isSpelling h' rest'] at hread
    obtain ⟨rfl, rfl, -⟩ := Lexed.mk.inj (Option.some.inj hread)
    exact ⟨rfl, rfl⟩

end Tag

end Stencil
