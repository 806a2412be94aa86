import Stencil.CommandLine.Run

/-!
# The program

The program takes a snapshot of the files that a run may need, runs on it, and then writes the
directories and files that the run made or changed. Links keep the path that they finally lead to,
and what they lead to is part of the snapshot.
-/

namespace Stencil

/-! ### Snapshots -/

/-- The files that have been read so far, and the places below which nothing is missing. -/
structure Snapshot where
  root : Node
  complete : List Place

/-- The entry of that name in the directory at a place. -/
def diskEntry (place : Place) (name : Text) : IO.FS.DirEntry :=
  ⟨String.ofList (FileSystem.pathTo place), String.ofList name⟩

/-- What a disk holds under a name: a file with its bytes, a link, or a directory without its
entries. -/
def readEntry (place : Place) (name : Text) : IO (Option Node) := do
  let path := (diskEntry place name).path
  try
    match (← path.symlinkMetadata).type with
    | .file => return some (.file (← IO.FS.readBinFile path))
    | .dir => return some .emptyDirectory
    | .symlink =>
      let target ← try IO.FS.realPath path catch _ => pure path
      return some (.link target.toString.toList)
    | .other => return none
  catch _ => return none

/-- What a disk holds at a place, with everything below it. -/
partial def readTree (place : Place) (name : Text) : IO (Option Node) := do
  let node ← readEntry place name
  match node with
  | some (.directory _) =>
    let mut entries : List (Text × Node) := []
    for entry in ← (diskEntry place name).path.readDir do
      let child := entry.fileName.toList
      if let some node ← readTree (place ++ [name]) child then
        entries := NameMap.insertEntry child node entries
    return some (.directory entries)
  | node => return node

/-- The paths that the links in a tree lead to. -/
partial def linkTargets : Node → List FilePath
  | .file _ => []
  | .link target => [target]
  | .directory entries => entries.flatMap fun entry => linkTargets entry.2

mutual

/-- Reads what some steps lead to from a place, with everything below it. -/
partial def readSteps (here : Place) : List Step → StateT Snapshot IO Unit
  | [] => readPlace here
  | .top :: rest => readSteps [] rest
  | .stay :: rest => readSteps here rest
  | .up :: rest => readSteps here.dropLast rest
  | .down name :: rest => do
    match ← readEntry here name with
    | none => return
    | some (.link target) =>
      modify fun s => { s with root := s.root.put (here ++ [name]) (.link target) }
      -- a link that leads to itself leads nowhere
      if target ≠ FileSystem.pathTo (here ++ [name]) then readSteps here (target.steps ++ rest)
    | some node =>
      let place := here ++ [name]
      if ((← get).root.at? place).isNone then
        modify fun s => { s with root := s.root.put place node }
      readSteps place rest

/-- Reads everything at a place and below it, and what the links there lead to. -/
partial def readPlace (place : Place) : StateT Snapshot IO Unit := do
  if (← get).complete.any (·.isPrefixOf place) then return
  let node ← match place.getLast? with
    | some name => readTree place.dropLast name
    | none => readTree [] ['.']
  let some node := node | return
  modify fun s => { root := s.root.put place node, complete := place :: s.complete }
  for target in linkTargets node do
    readSteps [] target.steps

end

/-- Reads what a path leads to. -/
def readPath (workingDirectory : Place) (p : FilePath) : StateT Snapshot IO Unit :=
  readSteps workingDirectory p.steps

/-- The file system with all files that an invocation may need. -/
def readFiles (i : Invocation) (workingDirectory : Place) : IO FileSystem := do
  let root := workingDirectory.foldr (fun name node => .directory [(name, node)]) .emptyDirectory
  let configPath := i.options.config.getD (i.root.join configFileName)
  let ((), s) ← (readPath workingDirectory configPath).run ⟨root, []⟩
  let config := match (SiteAction.perform (SiteConfig.load i.root i.options.config)
      ⟨⟨s.root, workingDirectory⟩, []⟩).1 with
    | .ok config => i.override config
    | .error _ => .standard
  let ((), s) ← (do
    for directory in config.directories do
      readPath workingDirectory (i.root.join directory.2)).run s
  return ⟨s.root, workingDirectory⟩

/-! ### Changes -/

/-- Writes what is new or different in a tree. -/
partial def writeChanges (place : Place) (before : Option Node) : Node → IO Unit
  | .file content => do
    let same := match before with
      | some (.file old) => old.data == content.data
      | _ => false
    if !same then IO.FS.writeBinFile (String.ofList (FileSystem.pathTo place)) content
  | .link _ => return
  | .directory entries => do
    unless before.any (·.isDirectory) do
      IO.FS.createDirAll (String.ofList (FileSystem.pathTo place))
    for (name, node) in entries do
      writeChanges (place ++ [name]) (before.bind (·.child? name)) node

/-! ### The program -/

/-- Runs the program in the working directory. -/
def runOnDisk (args : List Text) : IO RunResult := do
  let here := (← IO.FS.realPath ".").toString.toList
  let workingDirectory := (Text.pieces '/' here).filter (· ≠ [])
  let fs ← match CommandLine.read args with
    | .ok i => readFiles i workingDirectory
    | .error _ => pure ⟨.emptyDirectory, workingDirectory⟩
  let result := runProgram args fs
  writeChanges [] (some fs.root) result.files.root
  return result

end Stencil

open Stencil in
/-- Runs the program, prints its output and its log, and returns its exit code. -/
def main (args : List String) : IO UInt32 := do
  let result ← runOnDisk (args.map String.toList)
  IO.print result.output
  for entry in result.log do
    IO.eprintln s!"[{entry.level.name}] {entry.message}"
  if result.exitCode = .configError && result.log.isEmpty then IO.eprint usage
  return result.exitCode.toNat.toUInt32
