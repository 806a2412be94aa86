import Stencil.Glob.Files
import Stencil.Proofs.File.Parent

/-!
# Paths that stay below a directory

A path that is joined to a directory may lead out of it again. It does not if it is relative and
never goes above where it begins; and if it goes anywhere at all, its parent does not lead out
either.

* `FilePath.Confined` — that a path is so;
* `FilePath.Confined.within_join`, `FilePath.Confined.within_parent` — then the path and its parent
  stay in every directory that it is joined to;
* `FilePath.confined_of_within` — and if they stay in two directories of different names, the path
  is confined;
* `FilePath.confined_of_pieces` — a path of proper names is confined;
* `FilePath.confined_templateName` — so are the names of templates, with an extension behind, unless
  there is a backslash in the name of a file or a slash in the extension.
-/

namespace Stencil

namespace Spot

theorem within_descend (s : Spot) (names : List Text) : (s.descend names).Within s :=
  ⟨rfl, .inl ⟨rfl, List.prefix_append ..⟩⟩

theorem within_refl (s : Spot) : s.Within s :=
  ⟨rfl, .inl ⟨rfl, List.prefix_rfl⟩⟩

/-- Steps only lead further up. -/
theorem ups_le_follow {steps : List Step} (h : .top ∉ steps) (s : Spot) :
    s.ups ≤ (s.follow steps).ups := by
  induction steps generalizing s with
  | nil => exact Nat.le_refl _
  | cons x steps ih =>
    obtain ⟨hx, hsteps⟩ := List.ne_and_not_mem_of_not_mem_cons h
    refine Nat.le_trans ?_ (ih hsteps (s.step x))
    cases x with
    | top => exact absurd rfl hx
    | stay => exact Nat.le_refl _
    | down name => exact Nat.le_refl _
    -- going up may add a step above the start, and takes none back
    | up =>
      change s.ups ≤ s.up.ups
      unfold up
      split
      · split
        · exact Nat.le_refl _
        · exact Nat.le_succ _
      · exact Nat.le_refl _

/-- Going up from a name in the directory where a path begins leads above that directory. -/
theorem up_iterate_singleton (name : Text) (n : Nat) :
    up^[n + 1] ⟨false, 0, [name]⟩ = ⟨false, n, []⟩ := by
  induction n with
  | zero => rfl
  | succ n ih =>
    rw [Function.iterate_succ_apply', ih]
    rfl

end Spot

namespace FilePath

/-- Whether a path **is confined** to whatever directory it is joined to: it leads somewhere, and on
the way never above where it begins. -/
structure Confined (p : FilePath) : Prop where
  relative : p.isAbsolute = false
  ups_eq_zero : p.spot.ups = 0
  bareSteps_ne_nil : p.bareSteps ≠ []

instance (p : FilePath) : Decidable p.Confined :=
  decidable_of_iff (p.isAbsolute = false ∧ p.spot.ups = 0 ∧ p.bareSteps ≠ [])
    ⟨fun h => ⟨h.1, h.2.1, h.2.2⟩, fun h => ⟨h.relative, h.ups_eq_zero, h.bareSteps_ne_nil⟩⟩

/-! ### Directories that are not left -/

namespace Confined

variable {p : FilePath}

/-- A confined path **stays in the directory** that it is joined to. -/
theorem within_join (h : p.Confined) (directory : FilePath) :
    (directory.join p).spot.Within directory.spot := by
  rw [spot_join h.relative, Spot.beneath, h.ups_eq_zero]
  exact Spot.within_descend ..

/-- And so does its parent. -/
theorem within_parent (h : p.Confined) {directory q : FilePath}
    (hq : (directory.join p).parent? = some q) : q.spot.Within directory.spot := by
  have htop : .top ∉ p.bareSteps := by
    rw [bareSteps_of_relative h.relative]
    exact top_notMem_bareStepsOf _
  have hsplit := List.dropLast_concat_getLast h.bareSteps_ne_nil
  rw [← hsplit, List.mem_append, not_or] at htop
  -- without its last step, the path goes up no further than with it
  have hups : (Spot.here.follow p.bareSteps.dropLast).ups = 0 := by
    have hle := Spot.ups_le_follow htop.2 (Spot.here.follow p.bareSteps.dropLast)
    rw [← Spot.follow_append, hsplit] at hle
    exact Nat.le_zero.1 (h.ups_eq_zero ▸ hle)
  have hsteps : q.bareSteps = directory.bareSteps ++ p.bareSteps.dropLast := by
    rw [bareSteps_of_parent?_eq_some hq, bareSteps_join h.relative,
      List.dropLast_append_of_ne_nil h.bareSteps_ne_nil]
  rw [spot, hsteps, Spot.follow_append, Spot.follow_eq_beneath htop.1, Spot.beneath, hups]
  exact Spot.within_descend ..

end Confined

theorem spot_of_isName {name : Text} (h : Node.IsName name) :
    FilePath.spot name = ⟨false, 0, [name]⟩ := by
  rw [spot, bareSteps_of_isName h]
  rfl

/-- Above a name there is where the path begins. -/
theorem exists_parent_of_isName {p : FilePath} {name : Text} (h : p.bareSteps = [.down name]) :
    ∃ q : FilePath, p.parent? = some q ∧ q.spot = Spot.here := by
  cases hq : p.parent? with
  | some q =>
    refine ⟨q, rfl, ?_⟩
    rw [spot, bareSteps_of_parent?_eq_some hq, h]
    rfl
  -- only a path without any name has no parent
  | none =>
    have hsteps := bareSteps_of_parent?_eq_none hq
    rw [h] at hsteps
    split at hsteps
    · cases hsteps
    · cases hsteps

/-- **A path is confined** if it stays, and its parent too, in two directories of different names.
It cannot come back into both of them. -/
theorem confined_of_within {p : FilePath} {m n : Text} (hm : Node.IsName m) (hn : Node.IsName n)
    (hmn : m ≠ n)
    (h : ∀ directory ∈ [m, n], (FilePath.join directory p).spot.Within (FilePath.spot directory))
    (hparent : ∀ q, (FilePath.join m p).parent? = some q → q.spot.Within (FilePath.spot m)) :
    p.Confined := by
  obtain ⟨hpm, hpn⟩ : (FilePath.join m p).spot.Within (FilePath.spot m) ∧
      (FilePath.join n p).spot.Within (FilePath.spot n) :=
    ⟨h m List.mem_cons_self, h n (List.mem_cons_of_mem _ List.mem_cons_self)⟩
  rw [spot_of_isName hm] at hpm hparent
  rw [spot_of_isName hn] at hpn
  have hrelative : p.isAbsolute = false := by
    cases hp : p.isAbsolute with
    | false => rfl
    | true =>
      have habsolute := hpm.1
      rw [join_of_absolute hp, absolute_spot, hp] at habsolute
      cases habsolute
  refine ⟨hrelative, ?_, fun hnil => ?_⟩
  · -- the paths lead to where `p` goes up and comes down again, seen from both directories
    rw [spot_join hrelative, spot_of_isName hm] at hpm
    rw [spot_join hrelative, spot_of_isName hn] at hpn
    -- above both directories, the path would have to go down by the names of both
    have hnames {name : Text} {k : Nat} (hk : p.spot.ups = k + 1)
        (hwithin : (Spot.beneath ⟨false, 0, [name]⟩ p.spot).Within ⟨false, 0, [name]⟩) :
        [name] <+: p.spot.names := by
      rw [Spot.beneath, hk, Spot.up_iterate_singleton] at hwithin
      rcases hwithin.2 with hwithin | hwithin
      · exact hwithin.2
      · cases hwithin.2
    cases hups : p.spot.ups with
    | zero => rfl
    | succ k =>
      obtain ⟨rest, hrest⟩ := hnames hups hpm
      obtain ⟨rest', hrest'⟩ := hnames hups hpn
      rw [← hrest] at hrest'
      exact absurd (List.cons.inj hrest').1.symm hmn
  · -- a path that leads nowhere has the parent of the directory as its parent
    have hsteps : (FilePath.join m p).bareSteps = [.down m] := by
      rw [bareSteps_join hrelative, hnil, bareSteps_of_isName hm, List.append_nil]
    obtain ⟨q, hq, hhere⟩ := exists_parent_of_isName hsteps
    have hwithin := hparent q hq
    rw [hhere] at hwithin
    rcases hwithin.2 with hwithin | hwithin
    · cases List.prefix_nil.1 hwithin.2
    · exact absurd hwithin.1 (Nat.not_lt_zero _)

/-! ### Paths of names -/

theorem bareStepsOf_of_isName {names : List Text} (h : ∀ name ∈ names, Node.IsName name) :
    bareStepsOf names = names.map .down := by
  induction names with
  | nil => rfl
  | cons name names ih =>
    obtain ⟨⟨hnil, hdot, hdots, -⟩, hnames⟩ := List.forall_mem_cons.1 h
    rw [← List.singleton_append, bareStepsOf_append, ih hnames,
      bareStepsOf_singleton (not_or.2 ⟨hnil, hdot⟩), stepOf, if_neg (not_or.2 ⟨hnil, hdot⟩),
      if_neg hdots]
    rfl

/-- **A path of proper names** is confined. -/
theorem confined_of_pieces {p : FilePath} {names : List Text} (hpieces : p.pieces '/' = names)
    (hnames : ∀ name ∈ names, Node.IsName name) : p.Confined := by
  have hne : names ≠ [] := hpieces ▸ Text.pieces_ne_nil '/' p
  -- an absolute path has an empty piece in front, which is no name
  have hrelative : p.isAbsolute = false := by
    rw [← Bool.not_eq_true, isAbsolute_iff_pieces]
    rintro ⟨next, rest, hempty⟩
    rw [hpieces] at hempty
    exact (hnames [] (hempty ▸ List.mem_cons_self)).1 rfl
  have hsteps : p.bareSteps = names.map .down := by
    rw [bareSteps_of_relative hrelative, hpieces, bareStepsOf_of_isName hnames]
  refine ⟨hrelative, ?_, ?_⟩
  · rw [spot, hsteps, Spot.follow_map_down]
    rfl
  · rw [hsteps]
    exact mt List.map_eq_nil_iff.1 hne

theorem confined_unpieces {names : List Text} (hne : names ≠ [])
    (hnames : ∀ name ∈ names, Node.IsName name) :
    FilePath.Confined (Text.unpieces '/' names) :=
  confined_of_pieces (Text.pieces_unpieces hne fun name hname => (hnames name hname).2.2.2) hnames

/-! ### Names of templates -/

/-- What is before the extension is the beginning of a name. -/
theorem stem_prefix_self (name : Text) : stem name <+: name := by
  unfold stem cutExtension?
  cases hcut : (Text.cutAtLast? (· = '.') name).filter fun cut => !cut.1.isEmpty with
  | none => exact List.prefix_rfl
  | some cut =>
    obtain ⟨hsome, -⟩ := Option.filter_eq_some_iff.1 hcut
    obtain ⟨c, -, hname⟩ := Text.cutAtLast?_eq_some hsome
    exact ⟨c :: cut.2, hname.symm⟩

/-- The name of a page is a proper one, even where nothing is in front of the extension. -/
theorem isName_append_extension {stem extension : Text} (hstem : '/' ∉ stem) (hne : extension ≠ [])
    (hpoint : extension.head? ≠ some '.') (hextension : '/' ∉ extension) :
    Node.IsName (stem ++ '.' :: extension) := by
  obtain ⟨c, extension, rfl⟩ := List.exists_cons_of_ne_nil hne
  have hslash : '/' ∉ stem ++ '.' :: c :: extension := by
    rw [List.mem_append, List.mem_cons, not_or, not_or]
    exact ⟨hstem, by decide, hextension⟩
  refine ⟨List.append_ne_nil_of_right_ne_nil _ (List.cons_ne_nil _ _), ?_, ?_, hslash⟩
  · intro h
    have hlength := congrArg List.length h
    simp only [List.length_append, List.length_cons, List.length_nil] at hlength
    omega
  · intro h
    -- two points can only be read off an extension that begins with one
    cases stem with
    | nil =>
      obtain ⟨rfl, -⟩ := List.cons.inj (List.cons.inj h).2
      exact hpoint rfl
    | cons d stem =>
      have hlength := congrArg List.length h
      simp only [List.length_append, List.length_cons, List.length_nil] at hlength
      omega

/-- Pieces without backslashes make a path without them. -/
theorem notMem_unpieces {c : Char} (hc : c ≠ '/') {names : List Text}
    (h : ∀ name ∈ names, c ∉ name) : c ∉ Text.unpieces '/' names := by
  induction names with
  | nil => exact List.not_mem_nil
  | cons name names ih =>
    obtain ⟨hname, hnames⟩ := List.forall_mem_cons.1 h
    cases names with
    | nil => exact hname
    | cons next names =>
      rw [Text.unpieces, List.mem_append, List.mem_cons]
      rintro (hmem | rfl | hmem)
      · exact hname hmem
      · exact hc rfl
      · exact ih hnames hmem

theorem map_backslash_of_notMem {t : Text} (h : '\\' ∉ t) :
    t.map (fun c => if c = '\\' then '/' else c) = t := by
  refine (List.map_congr_left fun c hc => ?_).trans (List.map_id t)
  have hne : c ≠ '\\' := fun heq => h (heq ▸ hc)
  exact if_neg hne

theorem forall_eq_false_of_notMem {c : Char} {t : Text} (h : c ∉ t) :
    ∀ d ∈ t, decide (d = c) = false :=
  fun _ hd => decide_eq_false fun heq => h (heq ▸ hd)

/-- The name of a template, put together from the names on the path to its file. -/
theorem templateName_unpieces {outer : List Text} {last : Text}
    (hbackslash : '\\' ∉ Text.unpieces '/' (outer ++ [last])) (hslash : '/' ∉ last) :
    templateName (Text.unpieces '/' (outer ++ [last]))
      = Text.unpieces '/' (outer ++ [stem last]) := by
  rw [templateName, map_backslash_of_notMem hbackslash]
  by_cases hnil : outer = []
  · subst hnil
    simp only [List.nil_append, Text.unpieces,
      Text.cutAtLast?_eq_none (forall_eq_false_of_notMem hslash)]
  · rw [Text.unpieces_concat hnil, Text.unpieces_concat hnil,
      Text.cutAtLast?_append_cons _ (forall_eq_false_of_notMem hslash) (by decide)]

/-- What is written behind a path belongs to its last piece. -/
theorem unpieces_concat_append (outer : List Text) (last behind : Text) :
    Text.unpieces '/' (outer ++ [last]) ++ behind
      = Text.unpieces '/' (outer ++ [last ++ behind]) := by
  by_cases hnil : outer = []
  · subst hnil
    rfl
  · rw [Text.unpieces_concat hnil, Text.unpieces_concat hnil, List.append_assoc, List.cons_append]

/-- The path of a template is that of its file, up to the name of the file itself. -/
theorem pieces_templateName {p : FilePath} (h : '\\' ∉ p) {extension : Text}
    (hextension : '/' ∉ extension) :
    ∃ outer last, p.pieces '/' = outer ++ [last] ∧
      (templateName p ++ '.' :: extension).pieces '/'
        = outer ++ [stem last ++ '.' :: extension] := by
  obtain ⟨outer, last, hsplit⟩ : ∃ outer last, p.pieces '/' = outer ++ [last] :=
    ⟨_, _, (List.dropLast_concat_getLast (Text.pieces_ne_nil '/' p)).symm⟩
  have hpieces : ∀ piece ∈ outer ++ [last], '/' ∉ piece :=
    fun piece hpiece => Text.notMem_of_mem_pieces (hsplit ▸ hpiece)
  have hlast : '/' ∉ last := hpieces last List.mem_concat_self
  -- the name of the file has no slash, and neither does what becomes of it
  have hfile : '/' ∉ stem last ++ '.' :: extension := by
    rw [List.mem_append, List.mem_cons, not_or, not_or]
    exact ⟨fun hmem => hlast ((stem_prefix_self last).subset hmem), by decide, hextension⟩
  have hp : p = Text.unpieces '/' (outer ++ [last]) := by rw [← hsplit, Text.unpieces_pieces]
  refine ⟨outer, last, hsplit, ?_⟩
  rw [hp] at h ⊢
  rw [templateName_unpieces h hlast, unpieces_concat_append]
  refine Text.pieces_unpieces (List.append_ne_nil_of_right_ne_nil _ (List.cons_ne_nil _ _)) ?_
  intro piece hpiece
  rcases List.mem_append.1 hpiece with houter | hmem
  · exact hpieces piece (List.mem_append_left _ houter)
  · exact List.mem_singleton.1 hmem ▸ hfile

/-- The pieces of the name of a template with an extension behind it are proper names, if no name on
the way to its file holds a backslash and the extension is one that is accepted, without slashes. -/
theorem isName_of_mem_pieces_templateName {names : List Text}
    (hnames : ∀ name ∈ names, Node.IsName name) (hbackslash : ∀ name ∈ names, '\\' ∉ name)
    {extension : Text} (hne : extension ≠ []) (hpoint : extension.head? ≠ some '.')
    (hextension : '/' ∉ extension) {piece : Text}
    (hpiece : piece ∈ Text.pieces '/'
      (templateName (Glob.relativePath names) ++ '.' :: extension)) : Node.IsName piece := by
  have hpath : '\\' ∉ Text.unpieces '/' names := notMem_unpieces (by decide) hbackslash
  rw [Glob.relativePath, map_backslash_of_notMem hpath] at hpiece
  obtain ⟨outer, last, hpieces, hname⟩ := pieces_templateName hpath hextension
  have hlast : '/' ∉ stem last := fun hmem =>
    Text.notMem_of_mem_pieces (hpieces ▸ List.mem_concat_self) ((stem_prefix_self last).subset hmem)
  have houter : ∀ piece ∈ outer, Node.IsName piece := by
    by_cases hnil : names = []
    · -- the directory of the pages is itself a file
      subst hnil
      have hlength := congrArg List.length hpieces
      rw [List.length_append, List.length_singleton] at hlength
      rw [List.length_eq_zero_iff.1 (Nat.succ.inj hlength).symm]
      exact nofun
    · rw [Text.pieces_unpieces hnil fun name hname => (hnames name hname).2.2.2] at hpieces
      exact fun piece hpiece => hnames piece (hpieces ▸ List.mem_append_left _ hpiece)
  rw [hname] at hpiece
  rcases List.mem_append.1 hpiece with hpiece | hpiece
  · exact houter piece hpiece
  · exact List.mem_singleton.1 hpiece ▸ isName_append_extension hlast hne hpoint hextension

/-- **The name of a template** with an extension behind it is confined then. -/
theorem confined_templateName {names : List Text} (hnames : ∀ name ∈ names, Node.IsName name)
    (hbackslash : ∀ name ∈ names, '\\' ∉ name) {extension : Text} (hne : extension ≠ [])
    (hpoint : extension.head? ≠ some '.') (hextension : '/' ∉ extension) :
    FilePath.Confined (templateName (Glob.relativePath names) ++ '.' :: extension) :=
  confined_of_pieces rfl fun _ hpiece =>
    isName_of_mem_pieces_templateName hnames hbackslash hne hpoint hextension hpiece

end FilePath

end Stencil
