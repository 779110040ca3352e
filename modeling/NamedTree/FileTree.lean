import NamedTree.Path

/-! # File trees

A file tree is a file system as a value: files and directories under the list of names that leads to
them from the root, and a working directory that paths without a root start from. A path is resolved
step by step, and each step must start in a directory. Names and paths have limited lengths: a path
beyond the limit fails as a whole, before a step is made. -/

namespace NamedTree

/-- What stands at a place of a file tree. -/
inductive FileTree.Entry where
  | file (content : ByteArray)
  | directory

/-- Files and directories by their place, and the place of the working directory. -/
structure FileTree where
  working : List String := []
  entries : List (List String × FileTree.Entry) := []

namespace FileTree

/-- What stands at a place. The root is a directory. -/
def get? (tree : FileTree) (place : List String) : Option Entry :=
  if place.isEmpty then some .directory else tree.entries.lookup place

/-- Whether a directory stands at a place. -/
def isDirectory (tree : FileTree) (place : List String) : Bool :=
  match tree.get? place with
  | some .directory => true
  | _ => false

/-- Puts an entry at a place. -/
def put (tree : FileTree) (place : List String) (entry : Entry) : FileTree :=
  { tree with entries := (place, entry) :: tree.entries.filter (·.1 ≠ place) }

/-- Names have at most 255 bytes and no NUL. -/
def isName (segment : String) : Bool :=
  segment.utf8ByteSize ≤ 255 && !segment.toList.contains '\x00'

/-- Paths have at most 4095 bytes and no NUL. -/
def isPath (path : Path) : Bool :=
  path.toText.utf8ByteSize ≤ 4095 && !path.toText.toList.contains '\x00'

/-- Where a path starts. -/
def origin (tree : FileTree) (path : Path) : List String :=
  if path.rooted then [] else tree.working

/-- The place that segments lead to from a place; each segment must start in a directory. -/
def walk (tree : FileTree) (place : List String) : List String → Option (List String)
  | [] => some place
  | segment :: segments =>
    if !tree.isDirectory place then none
    else if Path.isFiller segment then tree.walk place segments
    else if segment = ".." then tree.walk place.dropLast segments
    else if isName segment then tree.walk (place ++ [segment]) segments
    else none

/-- The place of a path, whether something stands there or not. The empty path has none, and neither
has one that is too long. -/
def resolve? (tree : FileTree) (path : Path) : Option (List String) :=
  if path.isEmpty || !isPath path then none else tree.walk (tree.origin path) path.segments

/-- The content of a file. -/
def read? (tree : FileTree) (path : Path) : Option ByteArray :=
  match (tree.resolve? path).bind tree.get? with
  | some (.file content) => some content
  | _ => none

/-- The tree with a file written, unless a directory is in its place or missing above it. -/
def write? (tree : FileTree) (path : Path) (content : ByteArray) : Option FileTree :=
  match tree.resolve? path with
  | none => none
  | some place => if tree.isDirectory place then none else some (tree.put place (.file content))

/-- Makes the directories on the way from a place along segments, as far as possible, and says
whether the end was reached. -/
def makeDirectories (tree : FileTree) (place : List String) : List String → FileTree × Bool
  | [] => (tree, true)
  | segment :: segments =>
    if Path.isFiller segment then tree.makeDirectories place segments
    else if segment = ".." then tree.makeDirectories place.dropLast segments
    else if !isName segment then (tree, false)
    else
      match tree.get? (place ++ [segment]) with
      | some .directory => tree.makeDirectories (place ++ [segment]) segments
      | some (.file _) => (tree, false)
      | none =>
        (tree.put (place ++ [segment]) .directory).makeDirectories (place ++ [segment]) segments

/-- Makes a directory and those above it, or nothing if the path is too long. -/
def createDirectories (tree : FileTree) (path : Path) : FileTree × Bool :=
  if isPath path then tree.makeDirectories (tree.origin path) path.segments else (tree, false)

/-- The files below a place, by the names that lead to them from there. -/
def filesBelow (tree : FileTree) (place : List String) : List (List String) :=
  tree.entries.filterMap fun (other, entry) =>
    match entry with
    | .directory => none
    | .file _ => if place.isPrefixOf other then some (other.drop place.length) else none

/-- The directories below a place, by the names that lead to them from there. -/
def directoriesBelow (tree : FileTree) (place : List String) : List (List String) :=
  tree.entries.filterMap fun (other, entry) =>
    match entry with
    | .directory =>
      if place.isPrefixOf other && other ≠ place then some (other.drop place.length) else none
    | .file _ => none

end FileTree

end NamedTree
