import NamedTree.Proofs.Convert.Reports
import NamedTree.Proofs.Convert.Truncation

/-! # Positions do not shape the document

What a conversion makes of a tree depends on the locations in the tree and on the source only in the
meta data of the nodes, and it depends on the file only in the diagnostics (`convert_shape`). The
two runs that are compared may differ in all three.

`OutputNode.mapMeta` changes the meta data of every node of a document and nothing else. It keeps
which children are present, so a layout commutes with it (`Layout.map_apply`), and what a tree is
converted to with changed meta data is what the same tree without locations is converted to
(`Tree.mapMeta_levels_mapLocation`). -/

namespace NamedTree

mutual
/-- What stands in a place, with other meta data. -/
def Converted.mapMeta (f : MetaData → MetaData) : Converted → Converted
  | .node output => .node (OutputNode.mapMeta f output)
  | .literal value => .literal value
  | .list items => .list (Converted.mapMetaAll f items)

/-- A document with other meta data at every node. -/
def OutputNode.mapMeta (f : MetaData → MetaData) : OutputNode → OutputNode
  | ⟨kind, metaData, .fields entries⟩ =>
    ⟨kind, f metaData, .fields (Converted.mapMetaEntries f entries)⟩
  | ⟨kind, metaData, .children items⟩ =>
    ⟨kind, f metaData, .children (Converted.mapMetaAll f items)⟩
  | ⟨kind, metaData, .nested⟩ => ⟨kind, f metaData, .nested⟩

/-- What stands in a list of places, with other meta data. -/
def Converted.mapMetaAll (f : MetaData → MetaData) : List Converted → List Converted
  | [] => []
  | c :: cs => Converted.mapMeta f c :: Converted.mapMetaAll f cs

/-- What stands in named fields, with other meta data. -/
def Converted.mapMetaEntries (f : MetaData → MetaData) :
    List (String × Converted) → List (String × Converted)
  | [] => []
  | (name, c) :: entries => (name, Converted.mapMeta f c) :: Converted.mapMetaEntries f entries
end

/-- The document without meta data: every node has that of a node without a location. -/
def OutputNode.withoutMeta : OutputNode → OutputNode := mapMeta fun _ => .ofLocation "" none

/-- The document without the pieces of source in its meta data. -/
def OutputNode.withoutCode : OutputNode → OutputNode :=
  mapMeta fun metaData => { metaData with code := none }

mutual
/-- The tree with other locations. -/
def Tree.mapLocation (g : Option Location → Option Location) : Tree → Tree
  | .node kind children location => .node kind (Tree.mapAllLocations g children) (g location)
  | .literal value => .literal value

/-- The trees with other locations. -/
def Tree.mapAllLocations (g : Option Location → Option Location) : List Tree → List Tree
  | [] => []
  | tree :: trees => Tree.mapLocation g tree :: Tree.mapAllLocations g trees
end

/-- The tree without its locations. -/
def Tree.unlocated : Tree → Tree := mapLocation fun _ => none

/-! ### Changing meta data -/

namespace Converted
variable (f : MetaData → MetaData)

theorem mapMetaAll_eq_map (cs : List Converted) : mapMetaAll f cs = cs.map (mapMeta f) := by
  induction cs with
  | nil => rw [mapMetaAll, List.map_nil]
  | cons c cs ih => rw [mapMetaAll, ih, List.map_cons]

theorem mapMetaEntries_eq_map (entries : List (String × Converted)) :
    mapMetaEntries f entries = entries.map fun (name, c) => (name, mapMeta f c) := by
  induction entries with
  | nil => rw [mapMetaEntries, List.map_nil]
  | cons entry entries ih => rw [mapMetaEntries, ih, List.map_cons]

@[simp] theorem mapMeta_node (output : OutputNode) :
    mapMeta f (.node output) = .node (output.mapMeta f) := by
  rw [mapMeta]

@[simp] theorem mapMeta_literal (value : Literal) :
    mapMeta f (.literal value) = .literal value := by
  rw [mapMeta]

@[simp] theorem mapMeta_list (items : List Converted) :
    mapMeta f (.list items) = .list (items.map (mapMeta f)) := by
  rw [mapMeta, mapMetaAll_eq_map]

theorem present_mapMeta (c : Converted) : (c.mapMeta f).present = c.present := by
  cases c <;> simp [present]

theorem asNode_mapMeta (c : Converted) :
    (c.mapMeta f).asNode = c.asNode.map (OutputNode.mapMeta f) := by
  cases c <;> simp [asNode]

end Converted

theorem OutputNode.mapMeta_eq (f : MetaData → MetaData) (node : OutputNode) :
    node.mapMeta f = ⟨node.kind, f node.metaData, node.body.map (Converted.mapMeta f)⟩ := by
  obtain ⟨kind, metaData, body⟩ := node
  cases body with
  | fields entries => rw [mapMeta, Converted.mapMetaEntries_eq_map]; rfl
  | children items => rw [mapMeta, Converted.mapMetaAll_eq_map]; rfl
  | nested => rw [mapMeta]; rfl

/-! ### Conversion with other positions -/

namespace Tree
variable (g : Option Location → Option Location)

theorem mapAllLocations_eq_map (trees : List Tree) :
    mapAllLocations g trees = trees.map (mapLocation g) := by
  induction trees with
  | nil => rw [mapAllLocations, List.map_nil]
  | cons tree trees ih => rw [mapAllLocations, ih, List.map_cons]

@[simp] theorem mapLocation_literal (value : Literal) :
    mapLocation g (.literal value) = .literal value := by
  rw [mapLocation]

@[simp] theorem mapLocation_node (kind : Kind) (children : List Tree) (location : Option Location) :
    mapLocation g (.node kind children location) =
      .node kind (children.map (mapLocation g)) (g location) := by
  rw [mapLocation, mapAllLocations_eq_map]

theorem mapLocation_id (tree : Tree) : tree.mapLocation id = tree := by
  induction tree with
  | literal value => rw [mapLocation_literal]
  | node kind children location ih =>
    have hchildren : children.map (mapLocation id) = children.map id := List.map_congr_left ih
    rw [mapLocation_node, hchildren, List.map_id, id]

/-- **Locations and source are seen through the meta data alone.** Where a change of the meta data
hides the difference at every location, it hides it in the whole document. -/
theorem mapMeta_levels_mapLocation (f : MetaData → MetaData) (source source' : String)
    (h : ∀ location, f (.ofLocation source (g location)) = f (.ofLocation source' location))
    (left : ℕ) (tree : Tree) :
    ((tree.mapLocation g).levels source left).mapMeta f = (tree.levels source' left).mapMeta f := by
  induction tree generalizing left with
  | literal value => rw [mapLocation_literal, levels_literal, levels_literal]
  | node kind children location ih =>
    rw [mapLocation_node]
    cases left with
    | zero =>
      rw [levels_zero_node, levels_zero_node, Converted.mapMeta_node, Converted.mapMeta_node,
        OutputNode.mapMeta_eq, OutputNode.mapMeta_eq]
      simp only [OutputNode.stub, h location]
    | succ left =>
      have hchildren :
          ((children.map (mapLocation g)).map (levels source left)).map (Converted.mapMeta f) =
            (children.map (levels source' left)).map (Converted.mapMeta f) := by
        rw [List.map_map, List.map_map, List.map_map]
        exact List.map_congr_left fun child hchild => ih child hchild left
      have hbody := Layout.map_apply (Converted.mapMeta_literal f) (Converted.mapMeta_list f)
        (Converted.present_mapMeta f) kind.layout
      rw [levels_succ_node, levels_succ_node, Converted.mapMeta_node, Converted.mapMeta_node,
        OutputNode.mapMeta_eq, OutputNode.mapMeta_eq]
      simp only [hbody, hchildren, h location]

theorem postorder_mapLocation (distance : ℕ) (tree : Tree) :
    (tree.mapLocation g).postorder distance = tree.postorder distance := by
  induction tree generalizing distance with
  | literal value => rw [mapLocation_literal]
  | node kind children location ih =>
    rw [mapLocation_node, postorder, postorder, allPostorder_eq_flatMap, allPostorder_eq_flatMap,
      List.flatMap_map]
    rw [List.flatMap_congr fun child hchild => ih child hchild (distance + 1)]

end Tree

/-- The document of a tree with other meta data. -/
theorem Tree.map_mapMeta_convert (f : MetaData → MetaData) (ctx : Context) (depth : UInt64)
    (tree : Tree) : (tree.convert ctx depth).1.map (OutputNode.mapMeta f) =
      ((tree.levels ctx.source (ctx.maxDepth.toNat - depth.toNat)).mapMeta f).asNode := by
  rw [Converted.asNode_mapMeta, ← convertTree_fst]
  rfl

/-- The diagnostics depend on the kinds of the nodes, on their distances and on the file. -/
theorem Tree.convert_snd_unlocated (ctx : Context) (depth : UInt64) (tree : Tree) :
    (tree.convert ctx depth).2 = ctx.reports Kind.isKnown depth (tree.unlocated.postorder 0) := by
  rw [unlocated, postorder_mapLocation]
  exact convertTree_snd ctx depth tree 0 depth (by omega) (Or.inl rfl)

/-- **Positions, source and file do not shape the document.** Two trees that differ only in their
locations have the same document up to meta data, whatever their sources and files, and the same
diagnostics if their files have the same name. For one tree the file does not change the document
at all, and the source changes only the code in the meta data. -/
theorem convert_shape {tree tree' : Tree} (h : tree.unlocated = tree'.unlocated)
    (source source' : String) (file file' : Option String) (limit depth : UInt64) :
    (tree.convert ⟨source, file, limit⟩ depth).1.map OutputNode.withoutMeta =
      (tree'.convert ⟨source', file', limit⟩ depth).1.map OutputNode.withoutMeta ∧
    (file = file' → (tree.convert ⟨source, file, limit⟩ depth).2 =
      (tree'.convert ⟨source', file', limit⟩ depth).2) ∧
    (tree.convert ⟨source, file, limit⟩ depth).1 = (tree.convert ⟨source, file', limit⟩ depth).1 ∧
    (tree.convert ⟨source, file, limit⟩ depth).1.map OutputNode.withoutCode =
      (tree.convert ⟨source', file, limit⟩ depth).1.map OutputNode.withoutCode := by
  refine ⟨?_, ?_, ?_, ?_⟩
  · have hsource : ∀ (source : String) (tree : Tree) (left : ℕ),
        (tree.unlocated.levels "" left).mapMeta (fun _ => .ofLocation "" none) =
          (tree.levels source left).mapMeta (fun _ => .ofLocation "" none) :=
      fun source tree left =>
        Tree.mapMeta_levels_mapLocation (fun _ => none) _ "" source (fun _ => rfl) left tree
    rw [OutputNode.withoutMeta, Tree.map_mapMeta_convert, Tree.map_mapMeta_convert,
      ← hsource source, ← hsource source', h]
  · rintro rfl
    rw [Tree.convert_snd_unlocated, Tree.convert_snd_unlocated, h]
    rfl
  · simp only [Tree.convert, convertTree_fst]
  · have hsource : ∀ left, (tree.levels source left).mapMeta
        (fun metaData => { metaData with code := none }) =
          (tree.levels source' left).mapMeta fun metaData => { metaData with code := none } := by
      intro left
      have hid := Tree.mapMeta_levels_mapLocation id
        (fun metaData => { metaData with code := none }) source source' (fun _ => rfl) left tree
      rwa [Tree.mapLocation_id] at hid
    rw [OutputNode.withoutCode, Tree.map_mapMeta_convert, Tree.map_mapMeta_convert, hsource]

/-- A call and the same call elsewhere in another source: other code, the same shape. -/
theorem convert_shape_call :
    let call := Tree.node (.ofName "send") [.literal .nil, .literal (.str "f")]
      (some { line := some 1, expression := some ⟨0, 1⟩ })
    let call' := Tree.node (.ofName "send") [.literal .nil, .literal (.str "f")] none
    let body : Body Converted := .fields
      [("receiver", .literal .nil), ("name", .literal (.str "f")), ("arguments", .list [])]
    call.unlocated = call'.unlocated ∧
    (call.convert ⟨"f", none, 9⟩ 3).1 =
      some ⟨.ofName "send", ⟨1, -1, -1, -1, some 0, some 1, some "f"⟩, body⟩ ∧
    (call'.convert ⟨"g; f", some "a.rb", 9⟩ 3).1 =
      some ⟨.ofName "send", ⟨-1, -1, -1, -1, none, none, none⟩, body⟩ ∧
    (call.convert ⟨"f", none, 9⟩ 3).1.map OutputNode.withoutMeta =
      (call'.convert ⟨"g; f", some "a.rb", 9⟩ 3).1.map OutputNode.withoutMeta := by
  intro call call' body
  have h : call.unlocated = call'.unlocated := by simp [call, call', Tree.unlocated]
  exact ⟨h, rfl, rfl, (convert_shape h "f" "g; f" none (some "a.rb") 9 3).1⟩

end NamedTree
