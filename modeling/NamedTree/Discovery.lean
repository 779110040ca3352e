import NamedTree.Document.Reader
import NamedTree.Failure
import NamedTree.FileTree

/-! # Finding tree documents

Tree documents are the files whose names end in `.ast.json` and have something before it. `discover`
lists those below a root, in the order of their paths. The converted form of a document goes to the
same place below an output directory, under its name with the suffix replaced (`outputPath`). -/

namespace NamedTree

namespace Discovery

/-- The end of the names of tree documents. -/
def documentSuffix : String := ".ast.json"

/-- The text before the document suffix. -/
def stem? (name : String) : Option String :=
  let cs := name.toList
  let ending := documentSuffix.toList
  if ending.isSuffixOf cs then some (String.ofList (cs.take (cs.length - ending.length))) else none

/-- Whether a path names a tree document. -/
def isDocument (path : Path) : Bool :=
  match path.fileName?.bind stem? with
  | some stem => stem ≠ ""
  | none => false

/-- The file name of a path without the document suffix. -/
def outputStem (path : Path) : String :=
  let name := path.fileName?.getD ""
  (stem? name).getD name

/-- Where the converted form of a document below `root` goes. -/
def outputPath (root document outDir : Path) (extension : String) : Path :=
  let relative := (document.relativeTo? root).getD document
  let fileName := Path.ofText (outputStem document ++ "." ++ extension)
  match relative.parent? with
  | some parent => (outDir.join parent).join fileName
  | none => outDir.join fileName

/-- The files below a root, or the root itself if it is a file. Each directory below the root is
opened by its path. -/
def filesUnder? (tree : FileTree) (root : Path) : Option (List Path) :=
  match tree.resolve? root with
  | none => none
  | some place =>
    match tree.get? place with
    | none => none
    | some (.file _) => some [root]
    | some .directory =>
      if (tree.directoriesBelow place).all fun names => FileTree.isPath (root.join ⟨false, names⟩)
      then some ((tree.filesBelow place).map fun names => root.join ⟨false, names⟩)
      else none

/-- The tree documents below a root, in the order of their paths. -/
def discover (tree : FileTree) (root : Path) : Except Failure (List Path) :=
  match filesUnder? tree root with
  | none => .error (.walk root)
  | some paths => .ok ((paths.filter isDocument).mergeSort Path.le)

end Discovery

/-- Decodes the text of a document that came from a path. -/
def Document.ofText (path : Path) (text : String) : Except Failure Document :=
  match Document.read text with
  | .ok document => .ok document
  | .error fault => .error (.decode path text fault)

/-- Reads a document from a file, which must be text. -/
def Document.load (tree : FileTree) (path : Path) : Except Failure Document :=
  match (tree.read? path).bind String.fromUTF8? with
  | none => .error (.read path)
  | some text => Document.ofText path text

end NamedTree
