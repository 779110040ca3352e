import NamedTree.Command.Run

/-! # The program

The outer layer: it takes a picture of the part of the disk that the command line names, runs the
command on it, and writes back what has changed. Everything that decides is in `Command.runWords`. -/

namespace NamedTree.Program

/-- How the program is used. -/
def usage : String :=
  "Normalize parsed Ruby syntax trees into named-field JSON documents.\n\n" ++
  "Usage:\n" ++
  "  convert <DOCUMENT> [-o <OUTPUT>] [--format json|yaml] [--pretty] [--max-depth <N>]\n" ++
  "  batch <DIR> --out-dir <OUT_DIR> [--format json|yaml] [--pretty] [--max-depth <N>]\n" ++
  "  kinds\n"

/-- The text of a place on the disk. -/
def placeText (place : List String) : String := "/" ++ "/".intercalate place

/-- What stands at a place of the disk. A file that cannot be read counts as one that is not text. -/
def entryAt (place : List String) : IO (Option FileTree.Entry) := do
  let path := (← IO.currentDir) / placeText place
  if ← path.isDir then return some .directory
  else if ← path.pathExists then
    try return some (.file (← IO.FS.readBinFile path))
    catch _ => return some (.file ⟨#[0xFF]⟩)
  else return none

/-- What stands at a place of the disk and below it. -/
partial def entriesBelow (place : List String) : IO (List (List String × FileTree.Entry)) := do
  match ← entryAt place with
  | none => return []
  | some (.file content) => return [(place, .file content)]
  | some .directory =>
    let mut entries := [(place, .directory)]
    for child in ← ((← IO.currentDir) / placeText place).readDir do
      entries := entries ++ (← entriesBelow (place ++ [child.fileName]))
    return entries

/-- What stands on the way along a path, and the place where it ends. -/
def entriesAlong (origin : List String) (path : Path) :
    IO (List (List String × FileTree.Entry) × List String) := do
  let mut place := if path.rooted then [] else origin
  let mut entries := []
  for component in path.components do
    match component with
    | .parent => place := place.dropLast
    | .name name =>
      place := place ++ [name]
      if let some entry ← entryAt place then entries := entries ++ [(place, entry)]
    | _ => pure ()
  return (entries, place)

/-- The part of the disk that a command touches. -/
def picture (command : Command) : IO FileTree := do
  let working := ((← IO.currentDir).components).filter (· ≠ "")
  let start : FileTree :=
    { working := working
      entries := (List.range working.length).map fun n => (working.take (n + 1), .directory) }
  let (paths, deep) := match command with
    | .convert document output _ => (document :: output.toList, false)
    | .batch dir outDir _ => ([dir, outDir], true)
    | .kinds => ([], false)
  let mut tree := start
  for path in paths do
    let (along, place) ← entriesAlong working path
    let below ← if deep then entriesBelow place else pure []
    for (place, entry) in along ++ below do
      tree := tree.put place entry
  return tree

/-- Writes to the disk what has changed between two trees, directories first. -/
def save (before after : FileTree) : IO Unit := do
  for (place, entry) in after.entries do
    if let .directory := entry then
      if !before.isDirectory place then IO.FS.createDirAll (placeText place)
  for (place, entry) in after.entries do
    match entry, before.get? place with
    | .file new, some (.file old) =>
      if new != old then IO.FS.writeBinFile (placeText place) new
    | .file new, _ => IO.FS.writeBinFile (placeText place) new
    | .directory, _ => pure ()

/-- Runs the program on its command line. -/
def run (words : List String) : IO UInt32 := do
  match Command.parse words with
  | .error refusal =>
    let outcome := Command.runWords words {}
    IO.print outcome.stdout
    if refusal = .helpRequested then IO.print usage
    else if refusal ≠ .versionRequested then IO.eprint usage
    return UInt32.ofNat outcome.exitCode
  | .ok command =>
    let before ← picture command
    let outcome := command.run before
    save before outcome.tree
    for entry in outcome.log do IO.eprintln entry.written
    IO.print outcome.stdout
    if let some failure := outcome.failure then
      IO.eprintln (failure.code ++ ": " ++ failure.message)
      if let some help := failure.help then IO.eprintln ("help: " ++ help)
    return UInt32.ofNat outcome.exitCode

end NamedTree.Program

/-- The entry point of the program. -/
def main (words : List String) : IO UInt32 := NamedTree.Program.run words
