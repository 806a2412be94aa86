import Stencil.Proofs.File.Effects
import Stencil.Proofs.File.Plain

/-!
# Entries of a directory, by their paths

Whoever lists a directory joins the name of each entry to the path of the directory. In a tree
without links that path leads to the entry, unless the system does not take it: joined to the path
of a directory that was found, a name may make it too long.

* `FilePath.exists_steps_join` — the steps of the joined path end with one step down;
* `Node.resolveSteps_append` — steps that can be gone lead on to the steps behind them;
* `FileSystem.find_join` — so the joined path leads to the entry, or it is not taken.
-/

namespace Stencil

namespace FilePath

/-- Why the system **does not take the path to an entry** of a directory that was found. -/
def entryFault? (directory : FilePath) (name : Text) : Option IoFault :=
  if '\x00' ∈ name then some .invalidPath
  else if maxPathSize < (directory.join name).size ∨ maxNameSize < name.size then
    some .nameTooLong
  else none

variable {p : FilePath} {name : Text}

theorem join_eq_append (hname : Node.IsName name) :
    p.join name = p ++ name ∨ p.join name = p ++ '/' :: name := by
  rw [join, isAbsolute_of_isName hname, if_neg Bool.false_ne_true]
  split
  · exact .inl rfl
  · exact .inr rfl

theorem nul_mem_join_iff (hname : Node.IsName name) (hp : '\x00' ∉ p) :
    '\x00' ∈ p.join name ↔ '\x00' ∈ name := by
  rcases join_eq_append (p := p) hname with h | h
  · rw [h, List.mem_append, or_iff_right hp]
  · rw [h, List.mem_append, or_iff_right hp, List.mem_cons, or_iff_right (by decide)]

theorem join_ne_nil (hname : Node.IsName name) : p.join name ≠ [] := by
  rcases join_eq_append (p := p) hname with h | h
  · rw [h]
    exact List.append_ne_nil_of_right_ne_nil _ hname.1
  · rw [h]
    exact List.append_ne_nil_of_right_ne_nil _ (List.cons_ne_nil _ _)

/-- Joining a name makes a path longer by that name at least. -/
theorem size_add_size_le_size_join (hname : Node.IsName name) :
    p.size + name.size ≤ (p.join name).size := by
  rcases join_eq_append (p := p) hname with h | h
  · rw [h, Text.size_append]
  · rw [h, Text.size_append, Text.size_cons]
    omega

/-- **The steps of the path to an entry** are those of the directory and then one down. The step to
nowhere is left out that a slash behind the directory stands for. -/
theorem exists_steps_join (hp : p ≠ []) (hname : Node.IsName name) :
    ∃ steps, (p.join name).steps = steps ++ [.down name] ∧
      (p.steps = steps ∨ p.steps = steps ++ [.stay]) := by
  have hpieces : Text.pieces '/' name = [name] := Text.pieces_of_notMem hname.2.2.2
  have hstep : stepOf name = .down name := by
    rw [stepOf, if_neg (not_or.2 ⟨hname.1, hname.2.1⟩), if_neg hname.2.2.1]
  have hmap (outer : Text) : (Text.pieces '/' (outer ++ '/' :: name)).map stepOf
      = (outer.pieces '/').map stepOf ++ [.down name] := by
    rw [Text.pieces_append_cons, List.map_append, hpieces, List.map_singleton, hstep]
  rw [steps, steps, isAbsolute_join (isAbsolute_of_isName hname)]
  -- a slash behind the directory is not doubled, but by itself it was a step to nowhere
  by_cases hend : p.getLast? = some '/'
  · obtain ⟨outer, rfl⟩ := List.getLast?_eq_some_iff.1 hend
    have hjoin : join (outer ++ ['/']) name = outer ++ '/' :: name := by
      rw [join, isAbsolute_of_isName hname, if_neg Bool.false_ne_true,
        if_pos (Bool.or_eq_true_iff.2 (.inr (decide_eq_true hend))), List.append_assoc,
        List.singleton_append]
    have hslash : (Text.pieces '/' (outer ++ ['/'])).map stepOf
        = (Text.pieces '/' outer).map stepOf ++ [.stay] := by
      rw [Text.pieces_append_cons, List.map_append]
      rfl
    rw [hjoin, hmap, hslash]
    split
    · exact ⟨.top :: _, rfl, .inr rfl⟩
    · exact ⟨_, rfl, .inr rfl⟩
  · rw [join_of_isName hp hend hname, hmap]
    split
    · exact ⟨.top :: _, rfl, .inl rfl⟩
    · exact ⟨_, rfl, .inl rfl⟩

end FilePath

namespace Node

variable {root : Node}

/-- **Steps that can be gone** lead on to the steps behind them. -/
theorem resolveSteps_append (hlinks : root.LinkFree) (followLast : Bool) (links : Nat)
    {here : Place} {steps : List Step} (h : root.view.Passable here steps) (rest : List Step) :
    root.resolveSteps followLast links here (steps ++ rest)
      = root.resolveSteps followLast links (here.follow steps) rest := by
  induction steps generalizing here with
  | nil => rfl
  | cons x steps ih =>
    cases x with
    | top =>
      rw [List.cons_append, resolveSteps]
      exact ih h
    | stay =>
      rw [List.cons_append, resolveSteps, if_pos (isSome_entriesAt?_iff.2 h.1), Place.follow_stay]
      exact ih h.2
    | up =>
      rw [List.cons_append, resolveSteps, if_pos (isSome_entriesAt?_iff.2 h.1), Place.follow_up]
      exact ih h.2
    | down name =>
      -- what is there is no link, so one step down is one step
      obtain ⟨hdirectory, hsize, hthere, hrest⟩ := h
      obtain ⟨entries, hat⟩ := view_eq_directory_iff.1 hdirectory
      rw [List.cons_append, resolveSteps_down hlinks hat hsize, if_neg hthere, Place.follow_down]
      exact ih hrest

variable {here : Place} {entries : List (Text × Node)} {name : Text} {child : Node}

theorem at?_entry (hat : root.at? here = some (.directory entries))
    (hentry : NameMap.find? name entries = some child) :
    root.at? (here ++ [name]) = some child := by
  rw [at?_append, hat]
  show (NameMap.find? name entries).bind _ = _
  rw [hentry]
  rfl

/-- **One step down to an entry** only asks whether its name is short enough. -/
theorem resolveSteps_entry (hlinks : root.LinkFree) (followLast : Bool) (links : Nat)
    (hat : root.at? here = some (.directory entries))
    (hentry : NameMap.find? name entries = some child) :
    root.resolveSteps followLast links here [.down name]
      = if maxNameSize < name.size then .error .nameTooLong
        else .ok (.present (here ++ [name])) := by
  split
  · next hsize =>
    rw [resolveSteps, entriesAt?_of_at? hat]
    simp only [if_pos hsize]
  · next hsize =>
    have hpresent : root.view (here ++ [name]) ≠ none := by
      rw [view_concat hat, hentry]
      exact Option.some_ne_none _
    rw [resolveSteps_down hlinks hat (Nat.not_lt.1 hsize), if_neg hpresent, resolveSteps]

end Node

namespace FileSystem

variable {fs : FileSystem} {directory : FilePath} {place : Place} {entries : List (Text × Node)}
  {name : Text} {child : Node}

/-- **The path to a name in a directory** is one step down from the directory, if its characters
and its length are taken. -/
theorem resolve_join (hfs : fs.Unlinked)
    (hfind : fs.find directory = .ok (place, .directory entries)) (hname : Node.IsName name) :
    fs.resolve true (directory.join name)
      = if '\x00' ∈ name then .error .invalidPath
        else if maxPathSize < (directory.join name).size then .error .nameTooLong
        else fs.root.resolveSteps true maxLinks place [.down name] := by
  obtain ⟨htaken, hpassable, hplace, -⟩ := (find_eq_ok_iff hfs.linkFree).1 hfind
  obtain ⟨steps, hjoin, hsteps⟩ := FilePath.exists_steps_join htaken.ne_nil hname
  -- a step to nowhere at the end changes neither where the steps lead nor that they can be gone
  have hgone : fs.view.Passable fs.workingDirectory steps ∧
      Place.follow fs.workingDirectory steps = place := by
    rw [hplace, placeOf_eq]
    rcases hsteps with hsteps | hsteps
    · rw [hsteps] at hpassable ⊢
      exact ⟨hpassable, rfl⟩
    · rw [hsteps, TreeView.passable_append] at hpassable
      rw [hsteps, Place.follow_append]
      exact ⟨hpassable.1, rfl⟩
  have hnul := FilePath.nul_mem_join_iff hname htaken.nul
  rw [resolve, hjoin, Node.resolveSteps_append hfs.linkFree _ _ hgone.1, hgone.2,
    List.contains_eq_mem, List.isEmpty_eq_false_iff.2 (FilePath.join_ne_nil hname),
    if_neg Bool.false_ne_true]
  simp only [decide_eq_true_eq, hnul]

/-- **The path to an entry** leads there, if the system takes it. -/
theorem find_join (hfs : fs.Unlinked) (hfind : fs.find directory = .ok (place, .directory entries))
    (hentry : (name, child) ∈ entries) :
    fs.find (directory.join name)
      = (FilePath.entryFault? directory name).elim (.ok (place ++ [name], child)) .error := by
  have hat := ((find_eq_ok_iff hfs.linkFree).1 hfind).2.2.2
  have hwell := Node.wellFormed_directory_iff.1 (wellFormed_of_find hfs.wellFormed hfind)
  have hchild : NameMap.find? name entries = some child :=
    (NameMap.find?_eq_some_iff hwell.1).2 hentry
  have hthere : fs.root.at? (place ++ [name]) = some child := Node.at?_entry hat hchild
  rw [find, resolve_join hfs hfind (hwell.2 _ hentry).1,
    Node.resolveSteps_entry hfs.linkFree _ _ hat hchild, FilePath.entryFault?]
  -- the faults are those of the name and the path, in the order in which the system looks
  by_cases hnul : '\x00' ∈ name
  · rw [if_pos hnul, if_pos hnul]
    rfl
  · rw [if_neg hnul, if_neg hnul]
    by_cases hlong : maxPathSize < (directory.join name).size
    · rw [if_pos hlong, if_pos (.inl hlong)]
      rfl
    · rw [if_neg hlong]
      by_cases hsize : maxNameSize < name.size
      · rw [if_pos hsize, if_pos (.inr hsize)]
        rfl
      · rw [if_neg hsize, if_neg (not_or.2 ⟨hlong, hsize⟩)]
        simp only [hthere]
        rfl

/-- **A file is read** by its path, or the path is not taken, or its bytes are no text. -/
theorem readText_join (hfs : fs.Unlinked)
    (hfind : fs.find directory = .ok (place, .directory entries)) {content : ByteArray}
    (hentry : (name, .file content) ∈ entries) :
    fs.readText (directory.join name)
      = (FilePath.entryFault? directory name).elim
          ((Text.ofBytes? content).elim (.error .invalidText) .ok) .error := by
  rw [readText, read, find_join hfs hfind hentry]
  cases FilePath.entryFault? directory name with
  | some fault => rfl
  | none =>
    simp only [Option.elim_none]
    cases Text.ofBytes? content with
    | some t => rfl
    | none => rfl

end FileSystem

end Stencil
