import NamedTree.Proofs.Convert.Levels
import NamedTree.Proofs.Output.Nodes
import Mathlib.Data.List.NodupEquivFin
import Mathlib.Data.List.Lex

/-! # The output is the pruned source tree

Every node of an output document has an *image*, the node of the source tree that it was made from.
The image is given by a map of addresses: an address of the source tree names a node by the index
of the child to go to at each step (`Tree.at?`). The map keeps the root, parents and the order of
the document (`KeepsShape`), and what a node says of itself comes from its image alone. Stubs stand
exactly at the depth limit, and any other node has the body that its layout makes of the conversions
of all children of its image (`Pruning`).

`Traced` is the same with levels in place of depths. It is proved by induction on the tree: the
nodes below a node are a sublist of the nodes among the converted children, which gives the map its
first step, and the maps of the children give it the other steps. -/

namespace NamedTree

/-- The node of a tree at an address. -/
def Tree.at? : Tree → List ℕ → Option Tree
  | .literal _, _ => none
  | .node kind children location, [] => some (.node kind children location)
  | .node _ children _, index :: address => children[index]?.bind (at? · address)

/-- A map of addresses that keeps the root, parents and the order of a document. -/
structure KeepsShape (out : OutputNode) (image : List ℕ → List ℕ) : Prop where
  root : image [] = []
  parent : ∀ address index, (out.at? (address ++ [index])).isSome →
    ∃ child, image (address ++ [index]) = image address ++ [child]
  order : ∀ address address', (out.at? address).isSome → (out.at? address').isSome →
    address < address' → image address < image address'

/-- What conversion makes of a child that stands at the given depth: a literal stays as it is. -/
def Context.child (ctx : Context) (depth : UInt64) : Tree → Converted
  | .literal value => .literal value
  | .node kind children location => (convertTree ctx depth (.node kind children location)).1

/-- A document is the source tree, converted from the given depth on and pruned at the limit. -/
structure Pruning (ctx : Context) (depth : UInt64) (tree : Tree) (out : OutputNode)
    (image : List ℕ → List ℕ) : Prop extends KeepsShape out image where
  injective : ∀ address address', (out.at? address).isSome → (out.at? address').isSome →
    image address = image address' → address = address'
  source : ∀ address node, out.at? address = some node → ∃ kind children location,
    tree.at? (image address) = some (.node kind children location) ∧
      node.kind.name = kind.name ∧ node.metaData = .ofLocation ctx.source location ∧
        (node.isNested = false → node.body = kind.layout.apply
          (children.map (ctx.child (depth + .ofNat (address.length + 1)))))
  stub_iff : ∀ address node, out.at? address = some node →
    (node.isNested = true ↔ ctx.maxDepth.toNat ≤ depth.toNat + address.length)
  length_le : ∀ address, (out.at? address).isSome →
    address.length ≤ ctx.maxDepth.toNat - depth.toNat
  length_stub : ∀ address node, out.at? address = some node → node.isNested = true →
    address.length = ctx.maxDepth.toNat - depth.toNat

/-! ### The first step of the map -/

theorem exists_step_of_sublist_filterMap {f : α → Option β} {kept : List β} {items : List α}
    (h : kept.Sublist (items.filterMap f)) :
    ∃ step : ℕ ↪o ℕ, ∀ index b, kept[index]? = some b →
      ∃ a, items[step index]? = some a ∧ f a = some b := by
  obtain ⟨part, hpart, rfl⟩ := List.sublist_filterMap_iff.mp h
  have hsub : (part.filter (Option.isSome ∘ f)).Sublist items := List.filter_sublist.trans hpart
  obtain ⟨step, hstep⟩ := List.sublist_iff_exists_orderEmbedding_getElem?_eq.mp hsub
  refine ⟨step, fun index b hb => ?_⟩
  have hmap : ((part.filterMap f).map some)[index]? =
      ((part.filter (Option.isSome ∘ f)).map f)[index]? := by
    rw [List.map_filterMap_some_eq_filter_map_isSome, List.filter_map]
  rw [List.getElem?_map, List.getElem?_map, hb, hstep] at hmap
  obtain ⟨a, ha, hfa⟩ := Option.map_eq_some_iff.mp hmap.symm
  exact ⟨a, ha, hfa⟩

theorem Tree.nodes_levels (source : String) (left : ℕ) (tree : Tree) :
    (tree.levels source left).nodes = (tree.levels source left).asNode.toList := by
  cases tree with
  | literal value => simp [Converted.asNode]
  | node kind children location => cases left <;> simp [Converted.asNode]

/-- The nodes below a node were made from some of the children of its source, in their order. -/
theorem exists_step (source : String) (left : ℕ) (layout : Layout) (children : List Tree) :
    ∃ step : ℕ ↪o ℕ, ∀ index node,
      (layout.apply (children.map (Tree.levels source left))).nodes[index]? = some node →
        ∃ child, children[step index]? = some child ∧ child.levels source left = .node node := by
  have hsub := layout.nodes_apply_sublist (children.map (Tree.levels source left))
  have hnodes : (children.map (Tree.levels source left)).flatMap Converted.nodes =
      children.filterMap fun child => (child.levels source left).asNode := by
    rw [List.filterMap_eq_flatMap_toList, List.flatMap_map]
    simp only [Tree.nodes_levels]
  rw [hnodes] at hsub
  obtain ⟨step, hstep⟩ := exists_step_of_sublist_filterMap hsub
  refine ⟨step, fun index node hnode => ?_⟩
  obtain ⟨child, hchild, has⟩ := hstep index node hnode
  exact ⟨child, hchild, Converted.eq_node_of_asNode has⟩

/-! ### The whole map -/

/-- The image of a document whose tree was converted with so many levels left. -/
structure Traced (source : String) (left : ℕ) (tree : Tree) (out : OutputNode)
    (image : List ℕ → List ℕ) : Prop extends KeepsShape out image where
  made : ∀ address node, out.at? address = some node → ∃ kind children location,
    tree.at? (image address) = some (.node kind children location) ∧
      node.kind = kind ∧ node.metaData = .ofLocation source location ∧
        (address.length = left ∧ node.body = .nested ∨
          address.length < left ∧ node.body = kind.layout.apply
            (children.map (Tree.levels source (left - (address.length + 1)))))

/-- A map of addresses from its first step and what it does after that. -/
def graft (step : ℕ → ℕ) (rest : ℕ → List ℕ → List ℕ) : List ℕ → List ℕ
  | [] => []
  | index :: address => step index :: rest index address

theorem OutputNode.at?_cons_eq_some {out node : OutputNode} {index : ℕ} {address : List ℕ}
    (h : out.at? (index :: address) = some node) :
    ∃ child, out.below[index]? = some child ∧ child.at? address = some node :=
  Option.bind_eq_some_iff.mp h

theorem OutputNode.isSome_at?_cons {out : OutputNode} {index : ℕ} {address : List ℕ}
    (h : (out.at? (index :: address)).isSome) :
    ∃ child, out.below[index]? = some child ∧ (child.at? address).isSome := by
  obtain ⟨node, hnode⟩ := Option.isSome_iff_exists.mp h
  obtain ⟨child, hchild, hat⟩ := at?_cons_eq_some hnode
  exact ⟨child, hchild, by rw [hat]; rfl⟩

theorem KeepsShape.graft {out : OutputNode} {step : ℕ ↪o ℕ} {rest : ℕ → List ℕ → List ℕ}
    (h : ∀ index child, out.below[index]? = some child → KeepsShape child (rest index)) :
    KeepsShape out (graft step rest) where
  root := rfl
  parent := by
    intro address index hat
    cases address with
    | nil =>
      obtain ⟨child, hchild, -⟩ := OutputNode.isSome_at?_cons hat
      exact ⟨step index, by simp [NamedTree.graft, (h index child hchild).root]⟩
    | cons first address =>
      obtain ⟨child, hchild, hat⟩ := OutputNode.isSome_at?_cons hat
      obtain ⟨last, hlast⟩ := (h first child hchild).parent address index hat
      exact ⟨last, by simp [NamedTree.graft, hlast]⟩
  order := by
    intro address address' hat hat' hlt
    match address, address', hat, hat', hlt with
    | [], [], _, _, hlt => exact absurd hlt (lt_irrefl _)
    | [], _ :: _, _, _, _ => exact List.nil_lt_cons _ _
    | index :: address, index' :: address', hat, hat', hlt =>
      rw [NamedTree.graft, NamedTree.graft, List.cons_lt_cons_iff]
      rcases List.cons_lt_cons_iff.mp hlt with hindex | ⟨rfl, hrest⟩
      · exact Or.inl (step.lt_iff_lt.mpr hindex)
      · obtain ⟨child, hchild, hat⟩ := OutputNode.isSome_at?_cons hat
        obtain ⟨child', hchild', hat'⟩ := OutputNode.isSome_at?_cons hat'
        obtain rfl : child = child' := Option.some.inj (hchild.symm.trans hchild')
        exact Or.inr ⟨rfl, (h index child hchild).order address address' hat hat' hrest⟩

/-- Nothing lies below a stub, so any map of the further steps will do. -/
theorem Traced.stub (source : String) (kind : Kind) (children : List Tree)
    (location : Option Location) :
    Traced source 0 (.node kind children location)
      (OutputNode.stub kind (.ofLocation source location))
      (graft (RelEmbedding.refl (· ≤ ·) : ℕ ↪o ℕ) fun _ => id) := by
  have hbelow : ∀ (index : ℕ) (child : OutputNode),
      (OutputNode.stub kind (.ofLocation source location)).below[index]? ≠ some child := by
    intro index child hchild
    cases hchild
  refine ⟨KeepsShape.graft ?_, ?_⟩
  · intro index child hchild
    exact absurd hchild (hbelow index child)
  · intro address node hnode
    cases address with
    | nil =>
      cases hnode
      exact ⟨kind, children, location, rfl, rfl, rfl, Or.inl ⟨rfl, rfl⟩⟩
    | cons index address =>
      obtain ⟨child, hchild, -⟩ := OutputNode.at?_cons_eq_some hnode
      exact absurd hchild (hbelow index child)

/-- The maps of the children make the map of a node. -/
theorem Traced.node {source : String} {left : ℕ} {kind : Kind} {children : List Tree}
    {location : Option Location} {step : ℕ ↪o ℕ} {rest : ℕ → List ℕ → List ℕ}
    (h : ∀ index child,
      (kind.layout.apply (children.map (Tree.levels source left))).nodes[index]? = some child →
        ∃ origin, children[step index]? = some origin ∧
          Traced source left origin child (rest index)) :
    Traced source (left + 1) (.node kind children location)
      ⟨kind, .ofLocation source location,
        kind.layout.apply (children.map (Tree.levels source left))⟩
      (graft step rest) := by
  refine ⟨KeepsShape.graft ?_, ?_⟩
  · intro index child hchild
    obtain ⟨origin, -, htraced⟩ := h index child hchild
    exact htraced.toKeepsShape
  · intro address node hnode
    cases address with
    | nil =>
      cases hnode
      exact ⟨kind, children, location, rfl, rfl, rfl, Or.inr ⟨by simp, rfl⟩⟩
    | cons index address =>
      obtain ⟨child, hchild, hat⟩ := OutputNode.at?_cons_eq_some hnode
      obtain ⟨origin, horigin, htraced⟩ := h index child hchild
      obtain ⟨kind', children', location', himage, hkind, hmeta, hbody⟩ :=
        htraced.made address node hat
      refine ⟨kind', children', location', ?_, hkind, hmeta, ?_⟩
      · rw [graft, Tree.at?, horigin]
        exact himage
      · simpa using hbody

/-- **Every document has an image in the tree that it was made from.** -/
theorem exists_traced (source : String) (tree : Tree) : ∀ (left : ℕ) (out : OutputNode),
    tree.levels source left = .node out → ∃ image, Traced source left tree out image := by
  induction tree with
  | literal value => simp
  | node kind children location ih =>
    intro left out hout
    cases left with
    | zero =>
      obtain rfl : OutputNode.stub kind (.ofLocation source location) = out := by simpa using hout
      exact ⟨_, Traced.stub source kind children location⟩
    | succ left =>
      obtain rfl : (⟨kind, .ofLocation source location,
        kind.layout.apply (children.map (Tree.levels source left))⟩ : OutputNode) = out := by
          simpa using hout
      obtain ⟨step, hstep⟩ := exists_step source left kind.layout children
      have hrest : ∀ index, ∃ image, ∀ child,
          (kind.layout.apply (children.map (Tree.levels source left))).nodes[index]? = some child →
            ∃ origin, children[step index]? = some origin ∧
              Traced source left origin child image := by
        intro index
        cases hchild : (kind.layout.apply
            (children.map (Tree.levels source left))).nodes[index]? with
        | none => exact ⟨id, fun child h => by cases h⟩
        | some child =>
          obtain ⟨origin, horigin, hlevels⟩ := hstep index child hchild
          obtain ⟨image, himage⟩ := ih origin (List.mem_of_getElem? horigin) left child hlevels
          exact ⟨image, fun _ h => Option.some.inj h ▸ ⟨origin, horigin, himage⟩⟩
      choose rest hrest using hrest
      exact ⟨graft step rest, Traced.node hrest⟩

/-! ### From levels to depths -/

theorem KeepsShape.injective_of_order {out : OutputNode} {image : List ℕ → List ℕ}
    (h : KeepsShape out image) (address address' : List ℕ) (hat : (out.at? address).isSome)
    (hat' : (out.at? address').isSome) (heq : image address = image address') :
    address = address' := by
  rcases lt_trichotomy address address' with hlt | heq' | hlt
  · exact absurd heq (h.order _ _ hat hat' hlt).ne
  · exact heq'
  · exact absurd heq (h.order _ _ hat' hat hlt).ne'

theorem Traced.length_le {source : String} {left : ℕ} {tree : Tree} {out node : OutputNode}
    {image : List ℕ → List ℕ} (h : Traced source left tree out image) {address : List ℕ}
    (hnode : out.at? address = some node) : address.length ≤ left := by
  obtain ⟨_, _, _, -, -, -, ⟨hlen, -⟩ | ⟨hlen, -⟩⟩ := h.made address node hnode
  · exact hlen.le
  · exact hlen.le

theorem Traced.isNested_iff {source : String} {left : ℕ} {tree : Tree} {out node : OutputNode}
    {image : List ℕ → List ℕ} (h : Traced source left tree out image) {address : List ℕ}
    (hnode : out.at? address = some node) : node.isNested = true ↔ left ≤ address.length := by
  rw [OutputNode.isNested_iff]
  obtain ⟨kind, children, _, -, -, -, ⟨hlen, hbody⟩ | ⟨hlen, hbody⟩⟩ := h.made address node hnode
  · simp [hbody, hlen]
  · have hne := kind.layout.apply_ne_nested
      (children.map (Tree.levels source (left - (address.length + 1))))
    rw [hbody]
    exact ⟨fun h => absurd h hne, fun h => by omega⟩

theorem Context.child_eq_levels (ctx : Context) (depth : UInt64) :
    ctx.child depth = Tree.levels ctx.source (ctx.maxDepth.toNat - depth.toNat) := by
  funext tree
  cases tree with
  | literal value => rw [child, Tree.levels_literal]
  | node kind children location => rw [child, convertTree_fst]

/-- **The output is the source tree pruned at the depth limit.** -/
theorem exists_pruning (ctx : Context) (depth : UInt64) (kind : Kind) (children : List Tree)
    (location : Option Location) :
    ∃ out image, (Tree.convert ctx depth (.node kind children location)).1 = some out ∧
      Pruning ctx depth (.node kind children location) out image := by
  set left := ctx.maxDepth.toNat - depth.toNat with hleft
  obtain ⟨out, hout⟩ := Tree.exists_levels_node ctx.source left kind children location
  obtain ⟨image, htraced⟩ := exists_traced ctx.source _ left out hout
  refine ⟨out, image, ?_, htraced.toKeepsShape, htraced.injective_of_order, ?_, ?_, ?_, ?_⟩
  · simp only [Tree.convert, convertTree_fst, ← hleft, hout, Converted.asNode]
  · intro address node hnode
    obtain ⟨kind', children', location', himage, rfl, hmeta, hbody⟩ :=
      htraced.made address node hnode
    refine ⟨node.kind, children', location', himage, rfl, hmeta, fun hstub => ?_⟩
    rcases hbody with ⟨-, hbody⟩ | ⟨hlen, hbody⟩
    · rw [OutputNode.isNested_iff.mpr hbody] at hstub
      cases hstub
    · have hlt : depth.toNat + (address.length + 1) ≤ ctx.maxDepth.toNat := by omega
      rw [hbody, Context.child_eq_levels, toNat_depth_add hlt]
      congr 3
      omega
  · intro address node hnode
    rw [htraced.isNested_iff hnode]
    omega
  · intro address hat
    obtain ⟨node, hnode⟩ := Option.isSome_iff_exists.mp hat
    exact htraced.length_le hnode
  · intro address node hnode hstub
    exact le_antisymm (htraced.length_le hnode) ((htraced.isNested_iff hnode).mp hstub)

end NamedTree
