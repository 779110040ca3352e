import NamedTree.Kind

/-! # Syntax trees

A tree is what a parsing front end hands over: nodes with a kind, positional children and an
optional location, and literals at the leaves. Every part of a location may be missing, because a
front end also invents nodes that stand nowhere in the source. -/

namespace NamedTree

/-- A stretch of the source text by byte offsets, the end excluded. -/
structure Range where
  first : UInt64
  last : UInt64
deriving DecidableEq

/-- Where a node stands in its source. -/
structure Location where
  line : Option Int64 := none
  column : Option Int64 := none
  lastLine : Option Int64 := none
  lastColumn : Option Int64 := none
  expression : Option Range := none
deriving DecidableEq

/-- A syntax tree: a node with its children, or a literal. -/
inductive Tree where
  | node (kind : Kind) (children : List Tree) (location : Option Location)
  | literal (value : Literal)

/-- Induction on trees: what holds of the children of a node may be used for the node. -/
@[elab_as_elim, induction_eliminator]
theorem Tree.induction {motive : Tree → Prop}
    (node : ∀ kind children location, (∀ child ∈ children, motive child) →
      motive (.node kind children location))
    (literal : ∀ value, motive (.literal value)) : ∀ tree, motive tree
  | .node kind children location =>
    node kind children location fun child _ => Tree.induction node literal child
  | .literal value => literal value

/-- The range that a location gives for the source of its node. -/
def Location.range? (location : Option Location) : Option Range :=
  location.bind Location.expression

/-- Whether a tree is a node. -/
def Tree.isNode : Tree → Bool
  | .node .. => true
  | .literal _ => false

end NamedTree
