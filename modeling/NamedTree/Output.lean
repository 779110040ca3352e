import NamedTree.Kind
import NamedTree.Literal

/-! # Output documents

A converted tree keeps the kinds of its source and gives each node its meta data and a `Body`: named
fields, a plain list of children, or the mark of a node that was cut off by the depth limit. What
stands in a body is `Converted`: a node, a literal passed on as it was, or a list that a layout
gathered. The accessors walk such documents. -/

namespace NamedTree

/-- Where an output node comes from. Missing lines and columns are `-1`. -/
structure MetaData where
  startLine : Int64
  startColumn : Int64
  endLine : Int64
  endColumn : Int64
  offsetStart : Option UInt64
  offsetEnd : Option UInt64
  code : Option String
deriving DecidableEq

/-- What an output node holds, over the type of what stands in its places. -/
inductive Body (α : Type) where
  | fields (entries : List (String × α))
  | children (items : List α)
  | nested

/-- An output node over the type of what stands in its places. -/
structure NodeOf (α : Type) where
  kind : Kind
  metaData : MetaData
  body : Body α

/-- What stands in a place of an output node. -/
inductive Converted where
  | node (output : NodeOf Converted)
  | literal (value : Literal)
  | list (items : List Converted)

/-- A node of an output document. -/
abbrev OutputNode := NodeOf Converted

namespace Converted

/-- What a missing child reads as. -/
def absent : Converted := .literal .nil

/-- Everything but the literals `nil` and `false` is present. -/
def present : Converted → Bool
  | .literal value => value.truthy
  | _ => true

/-- The node, if it is one. -/
def asNode : Converted → Option OutputNode
  | .node output => some output
  | _ => none

@[simp] theorem present_absent : absent.present = false := rfl

end Converted

namespace OutputNode

/-- A node that was cut off by the depth limit. -/
def stub (kind : Kind) (metaData : MetaData) : OutputNode := ⟨kind, metaData, .nested⟩

/-- The value of a named field. -/
def field? (node : OutputNode) (name : String) : Option Converted :=
  match node.body with
  | .fields entries => entries.lookup name
  | _ => none

/-- The names of the fields in order; none on other bodies. -/
def fieldNames (node : OutputNode) : List String :=
  match node.body with
  | .fields entries => entries.map (·.1)
  | _ => []

/-- The plain list of children. -/
def children? (node : OutputNode) : Option (List Converted) :=
  match node.body with
  | .children items => some items
  | _ => none

/-- Whether a node was cut off by the depth limit. -/
def isNested (node : OutputNode) : Bool :=
  match node.body with
  | .nested => true
  | _ => false

end OutputNode

end NamedTree
