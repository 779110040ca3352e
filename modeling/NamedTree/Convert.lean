import NamedTree.Classify
import NamedTree.Diagnostic
import NamedTree.Snippet

/-! # Conversion

`convertTree` turns a syntax tree into an output document and lists the diagnostics on the way. A
node at the depth limit becomes a stub, and nothing below it is visited. Any other node converts its
children first, one level deeper, and is then given the body that its kind's layout makes of them;
literals pass through unchanged. The diagnostics of the children come before the node's own
(`convertTree_node`).

The depth is counted up for every child that is a node. `countTree` keeps the numbers that are
counted up to, and does not say what sort of numbers they are; `convertTree` counts with 64 bits. -/

namespace NamedTree

/-- What a conversion depends on besides the tree: the source that the ranges refer to, the file
that diagnostics name, and the depth at which nodes are cut off. -/
structure Context where
  source : String := ""
  file : Option String := none
  maxDepth : UInt64 := 100

/-- How a file that has no path is named in messages. -/
def unknownFile : String := "<unknown file>"

/-- The meta data of the node at a location. -/
def MetaData.ofLocation (source : String) (location : Option Location) : MetaData where
  startLine := (location.bind Location.line).getD (-1)
  startColumn := (location.bind Location.column).getD (-1)
  endLine := (location.bind Location.lastLine).getD (-1)
  endColumn := (location.bind Location.lastColumn).getD (-1)
  offsetStart := (Location.range? location).map Range.first
  offsetEnd := (Location.range? location).map Range.last
  code := Snippet.extract source location

namespace Diagnostic

/-- The warning for a node that is cut off. -/
def depthReached (kind : Kind) : Diagnostic :=
  ⟨.warn, "Reached max JSON depth on a " ++ kind.name ++ " node"⟩

/-- The warning for a node whose kind has no row. -/
def unhandled (file : Option String) (kind : Kind) : Diagnostic :=
  ⟨.warn, "Unhandled AST node type: " ++ kind.name ++ " - " ++ file.getD unknownFile⟩

end Diagnostic

/-- The diagnostics that a node adds to those of its children. -/
def Context.ownDiagnostics (ctx : Context) (kind : Kind) : List Diagnostic :=
  if kind.category = .fallback then [.unhandled ctx.file kind] else []

/-- Numbers that depths are counted with: whether one is at the limit, and the next one. -/
structure Counter (δ : Type) where
  atLimit : δ → Bool
  next : δ → δ

/-- A result, and the numbers that were counted up to on the way to it. -/
structure Counted (δ α : Type) where
  result : α
  counts : List δ

namespace Counted
variable {δ α β : Type}

instance : Monad (Counted δ) where
  pure a := ⟨a, []⟩
  bind x f := ⟨(f x.result).result, x.counts ++ (f x.result).counts⟩

@[simp] theorem result_pure (a : α) : (pure a : Counted δ α).result = a := rfl

@[simp] theorem counts_pure (a : α) : (pure a : Counted δ α).counts = [] := rfl

@[simp] theorem result_bind (x : Counted δ α) (f : α → Counted δ β) :
    (x >>= f).result = (f x.result).result := rfl

@[simp] theorem counts_bind (x : Counted δ α) (f : α → Counted δ β) :
    (x >>= f).counts = x.counts ++ (f x.result).counts := rfl

end Counted

/-- The depth of a child. It is counted for a node; a literal has none of its own. -/
def Counter.below (counter : Counter δ) (depth : δ) (child : Tree) : Counted δ δ :=
  if child.isNode then ⟨counter.next depth, [counter.next depth]⟩ else ⟨depth, []⟩

@[simp] theorem Counter.below_node (counter : Counter δ) (depth : δ) (kind : Kind)
    (children : List Tree) (location : Option Location) :
    counter.below depth (.node kind children location) =
      ⟨counter.next depth, [counter.next depth]⟩ := rfl

@[simp] theorem Counter.below_literal (counter : Counter δ) (depth : δ) (value : Literal) :
    counter.below depth (.literal value) = ⟨depth, []⟩ := rfl

mutual
/-- Converts a tree that stands at the given depth, and keeps all depths that are counted below. -/
def countTree (counter : Counter δ) (ctx : Context) (depth : δ) :
    Tree → Counted δ (Converted × List Diagnostic)
  | .literal value => pure (.literal value, [])
  | .node kind children location =>
    if counter.atLimit depth then
      pure (.node (OutputNode.stub kind (.ofLocation ctx.source location)), [.depthReached kind])
    else do
      let converted ← countChildren counter ctx depth children
      pure (.node ⟨kind, .ofLocation ctx.source location, kind.layout.apply converted.1⟩,
        converted.2 ++ ctx.ownDiagnostics kind)

/-- Converts the children of a node that stands at the given depth. -/
def countChildren (counter : Counter δ) (ctx : Context) (depth : δ) :
    List Tree → Counted δ (List Converted × List Diagnostic)
  | [] => pure ([], [])
  | child :: children => do
    let below ← counter.below depth child
    let first ← countTree counter ctx below child
    let others ← countChildren counter ctx depth children
    pure (first.1 :: others.1, first.2 ++ others.2)
end

/-- Depths are counted with 64 bits, up to the limit. -/
def Context.counter (ctx : Context) : Counter UInt64 where
  atLimit depth := ctx.maxDepth ≤ depth
  next depth := depth + 1

@[simp] theorem Context.counter_next (ctx : Context) (depth : UInt64) :
    ctx.counter.next depth = depth + 1 := rfl

theorem Context.counter_atLimit_iff (ctx : Context) (depth : UInt64) :
    ctx.counter.atLimit depth = true ↔ ctx.maxDepth ≤ depth :=
  decide_eq_true_iff

/-- Converts a tree that stands at the given depth. -/
def convertTree (ctx : Context) (depth : UInt64) (tree : Tree) : Converted × List Diagnostic :=
  (countTree ctx.counter ctx depth tree).result

theorem convertTree_literal (ctx : Context) (depth : UInt64) (value : Literal) :
    convertTree ctx depth (.literal value) = (.literal value, []) := by
  rw [convertTree, countTree]
  rfl

theorem result_countChildren (ctx : Context) (depth : UInt64) (children : List Tree) :
    (countChildren ctx.counter ctx depth children).result =
      (children.map fun child => (convertTree ctx (depth + 1) child).1,
        children.flatMap fun child => (convertTree ctx (depth + 1) child).2) := by
  induction children with
  | nil => rw [countChildren]; rfl
  | cons child children ih =>
    rw [countChildren, List.map_cons, List.flatMap_cons]
    cases child with
    | literal value => simp [ih, convertTree_literal, countTree]
    | node kind children location => simp [ih, convertTree]

/-- A node at the limit is cut off; any other one is made of its children, one level deeper. -/
theorem convertTree_node (ctx : Context) (depth : UInt64) (kind : Kind) (children : List Tree)
    (location : Option Location) :
    convertTree ctx depth (.node kind children location) =
      if ctx.maxDepth ≤ depth then
        (.node (OutputNode.stub kind (.ofLocation ctx.source location)), [.depthReached kind])
      else
        (.node ⟨kind, .ofLocation ctx.source location,
          kind.layout.apply (children.map fun child => (convertTree ctx (depth + 1) child).1)⟩,
          children.flatMap (fun child => (convertTree ctx (depth + 1) child).2) ++
            ctx.ownDiagnostics kind) := by
  rw [convertTree, countTree]
  simp only [ctx.counter_atLimit_iff]
  split
  · rfl
  · simp [result_countChildren]

/-- The document of a tree, which only a node has, and the diagnostics of making it. -/
def Tree.convert (ctx : Context) (depth : UInt64) (tree : Tree) :
    Option OutputNode × List Diagnostic :=
  let converted := convertTree ctx depth tree
  (converted.1.asNode, converted.2)

end NamedTree
