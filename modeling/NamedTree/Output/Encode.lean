import NamedTree.Output
import NamedTree.Tree.Codec

/-! # Output documents as JSON values

Every output node is an object with `type` and `meta_data` first, then its fields in the order of
its layout, or `children`, or the mark `nested`. -/

namespace NamedTree

/-- Meta data as a value. -/
def MetaData.toJson (m : MetaData) : Json :=
  .obj [("start_line", .ofInt64 m.startLine), ("start_column", .ofInt64 m.startColumn),
    ("end_line", .ofInt64 m.endLine), ("end_column", .ofInt64 m.endColumn),
    ("offset_start", .ofOption .ofUInt64 m.offsetStart),
    ("offset_end", .ofOption .ofUInt64 m.offsetEnd), ("code", .ofOption .str m.code)]

/-- The entries that every output node begins with. -/
def NodeOf.header (node : NodeOf α) : List (String × Json) :=
  [("type", .str node.kind.name), ("meta_data", node.metaData.toJson)]

mutual
/-- A converted child as a value. -/
def Converted.toJson : Converted → Json
  | .node output => OutputNode.toJson output
  | .literal value => value.toJson
  | .list items => .arr (Converted.toJsons items)

/-- An output node as a value. -/
def OutputNode.toJson : NodeOf Converted → Json
  | ⟨kind, metaData, .fields entries⟩ =>
    .obj (NodeOf.header (⟨kind, metaData, .fields entries⟩ : NodeOf Converted) ++
      Converted.toEntries entries)
  | ⟨kind, metaData, .children items⟩ =>
    .obj (NodeOf.header (⟨kind, metaData, .children items⟩ : NodeOf Converted) ++
      [("children", .arr (Converted.toJsons items))])
  | ⟨kind, metaData, .nested⟩ =>
    .obj (NodeOf.header (⟨kind, metaData, .nested⟩ : NodeOf Converted) ++ [("nested", .bool true)])

/-- Converted children as values. -/
def Converted.toJsons : List Converted → List Json
  | [] => []
  | item :: items => Converted.toJson item :: Converted.toJsons items

/-- Named fields as entries. -/
def Converted.toEntries : List (String × Converted) → List (String × Json)
  | [] => []
  | (name, v) :: entries => (name, Converted.toJson v) :: Converted.toEntries entries
end

end NamedTree
