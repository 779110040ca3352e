import NamedTree.Convert
import NamedTree.Tree.Codec

/-! # Tree documents

A tree document is what a front end writes for one source file: the path of the file, its text, and
its tree, which is missing when the file could not be parsed. Converting a document gives the output
node of its tree. A document without a tree, or with a literal at the root, has no result, and the
conversion says why it was skipped. -/

namespace NamedTree

/-- One parsed source file. -/
structure Document where
  filePath : Option String
  source : String
  tree : Option Tree

/-- Why a document has no result. -/
inductive Skip where
  | noTree
  | literalRoot
deriving DecidableEq

/-- The words for skipping a document. -/
def Skip.message : Skip → String
  | .noTree => "front end produced no tree; skipping"
  | .literalRoot => "tree root is not a node; skipping"

/-- The outcome of converting a document. -/
structure Conversion where
  result : Option OutputNode
  diagnostics : List Diagnostic
  skipped : Option Skip

namespace Document

/-- How the document's file is named in messages. -/
def fileName (document : Document) : String := document.filePath.getD unknownFile

/-- A document as a value. -/
def toJson (document : Document) : Json :=
  .obj [("file_path", .ofOption .str document.filePath), ("source", .str document.source),
    ("tree", .ofOption Tree.toJson document.tree)]

/-- The sort of the document's tree: none, a node or a literal. -/
def rootSort (document : Document) : String :=
  match document.tree with
  | none => "none"
  | some (.node ..) => "node"
  | some (.literal _) => "literal"

/-- Converts the tree of a document from its root on. -/
def convert (maxDepth : UInt64) (document : Document) : Conversion :=
  match document.tree with
  | none => ⟨none, [], some .noTree⟩
  | some tree =>
    let ctx : Context := ⟨document.source, document.filePath, maxDepth⟩
    let converted := tree.convert ctx 0
    ⟨converted.1, converted.2, if converted.1.isNone then some .literalRoot else none⟩

end Document

end NamedTree
