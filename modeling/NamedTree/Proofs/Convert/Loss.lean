import NamedTree.Proofs.Convert.Lossless
import NamedTree.Proofs.Convert.Reports
import NamedTree.Proofs.Output.Nodes

/-! # What is lost without a report

A conversion that reports nothing has reached every node of the tree, but it may still lose some of
them: a layout drops the children that it has no place for (`Layout.surplus`) and says nothing about
it. These are the children beyond the slots of a kind, all children of a kind whose fields are
constant, and those of a `return` whose first child is not present.

The nodes of a tree and of a document are listed by their kinds, each node before those below it
(`Tree.kinds`, `OutputNode.kinds`). A document never has more nodes than its tree, and after a
silent conversion it has all of them exactly if no surplus child is a node
(`convert_keeps_nodes_iff`).

The argument is a law of conservation for layouts (`Layout.contents_apply_append_surplus`): what
the places of a body contain, followed by what the surplus children contain, is what the children
contain. -/

namespace NamedTree

/-! ### The nodes of a document and of a tree -/

mutual
/-- The kinds of the nodes in a place, each node before those below it. -/
def Converted.kinds : Converted → List Kind
  | .node output => OutputNode.kinds output
  | .literal _ => []
  | .list items => Converted.allKinds items

/-- The kinds of the nodes of a document, each node before those below it. -/
def OutputNode.kinds : OutputNode → List Kind
  | ⟨kind, _, .fields entries⟩ => kind :: Converted.entryKinds entries
  | ⟨kind, _, .children items⟩ => kind :: Converted.allKinds items
  | ⟨kind, _, .nested⟩ => [kind]

/-- The kinds of the nodes in a list of places. -/
def Converted.allKinds : List Converted → List Kind
  | [] => []
  | c :: cs => Converted.kinds c ++ Converted.allKinds cs

/-- The kinds of the nodes in named fields. -/
def Converted.entryKinds : List (String × Converted) → List Kind
  | [] => []
  | (_, c) :: entries => Converted.kinds c ++ Converted.entryKinds entries
end

mutual
/-- The kinds of the nodes of a tree, each node before those below it. -/
def Tree.kinds : Tree → List Kind
  | .node kind children _ => kind :: Tree.allKinds children
  | .literal _ => []

/-- The kinds of the nodes of trees that stand side by side. -/
def Tree.allKinds : List Tree → List Kind
  | [] => []
  | tree :: trees => Tree.kinds tree ++ Tree.allKinds trees
end

namespace Converted

theorem allKinds_eq_flatMap (cs : List Converted) : allKinds cs = cs.flatMap kinds := by
  induction cs with
  | nil => rw [allKinds, List.flatMap_nil]
  | cons c cs ih => rw [allKinds, ih, List.flatMap_cons]

theorem entryKinds_eq_flatMap (entries : List (String × Converted)) :
    entryKinds entries = (entries.map (·.2)).flatMap kinds := by
  induction entries with
  | nil => rw [entryKinds, List.map_nil, List.flatMap_nil]
  | cons entry entries ih => rw [entryKinds, ih, List.map_cons, List.flatMap_cons]

@[simp] theorem kinds_literal (value : Literal) : kinds (.literal value) = [] := by
  rw [kinds]

@[simp] theorem kinds_list (items : List Converted) :
    kinds (.list items) = items.flatMap kinds := by
  rw [kinds, allKinds_eq_flatMap]

/-- The kind of a node comes before those of the nodes in its places. -/
@[simp] theorem kinds_node (output : OutputNode) :
    kinds (.node output) = output.kind :: output.body.contents kinds := by
  obtain ⟨kind, metaData, body⟩ := output
  cases body with
  | fields entries => rw [kinds, OutputNode.kinds, entryKinds_eq_flatMap]; rfl
  | children items => rw [kinds, OutputNode.kinds, allKinds_eq_flatMap]; rfl
  | nested => rw [kinds, OutputNode.kinds]; rfl

end Converted

namespace Tree

theorem allKinds_eq_flatMap (trees : List Tree) : allKinds trees = trees.flatMap kinds := by
  induction trees with
  | nil => rw [allKinds, List.flatMap_nil]
  | cons tree trees ih => rw [allKinds, ih, List.flatMap_cons]

@[simp] theorem kinds_literal (value : Literal) : kinds (.literal value) = [] := by
  rw [kinds]

@[simp] theorem kinds_node (kind : Kind) (children : List Tree) (location : Option Location) :
    kinds (.node kind children location) = kind :: children.flatMap kinds := by
  rw [kinds, allKinds_eq_flatMap]

end Tree

/-! ### Children without a place -/

namespace Layout

/-- The children that a layout has no place for. -/
def surplus {α : Type} (present : α → Bool) : Layout → List α → List α
  | .slots places, cs => cs.drop places.length
  | .whenPresent _, cs => if cs.head?.any present then [] else cs
  | .constants _, cs => cs
  | _, _ => []

theorem map_surplus {α β : Type} {present : α → Bool} {present' : β → Bool} {f : α → β}
    (hpresent : ∀ c, present' (f c) = present c) (layout : Layout) (cs : List α) :
    (surplus present layout cs).map f = surplus present' layout (cs.map f) := by
  cases layout with
  | slots places => rw [surplus, surplus, List.map_drop]
  | whenPresent name =>
    have hhead : (cs.map f).head?.any present' = cs.head?.any present := by
      cases cs with
      | nil => rfl
      | cons c cs => exact hpresent c
    rw [surplus, surplus, hhead, apply_ite (List.map f), List.map_nil]
  | _ => rfl

section Conservation
variable {β : Type} {content : Converted → List β}
  (hlist : ∀ cs, content (.list cs) = cs.flatMap content)
  (hliteral : ∀ value, content (.literal value) = [])

include hliteral in
theorem fieldContents_entry (slot : Slot) (c : Converted) :
    fieldContents content (slot.entry c) = content c := by
  unfold Slot.entry
  split_ifs with hleft
  · have hpresent : c.present = false := by simpa using (Bool.and_eq_true_iff.mp hleft).2
    cases c with
    | literal value => rw [hliteral, fieldContents_nil]
    | node output => cases hpresent
    | list items => cases hpresent
  · simp

include hliteral in
theorem fieldContents_fill_append (places : List Slot) (cs : List Converted) :
    fieldContents content (fill places cs) ++ (cs.drop places.length).flatMap content =
      cs.flatMap content := by
  fun_induction fill places cs with
  | case1 cs => rfl
  | case2 place places ih =>
    have hnil : content .absent = [] := hliteral .nil
    rw [List.drop_nil, List.flatMap_nil, List.append_nil] at ih
    rw [fieldContents_append, fieldContents_entry hliteral, hnil, ih]
    rfl
  | case3 place places c cs ih =>
    rw [fieldContents_append, fieldContents_entry hliteral, List.flatMap_cons, List.append_assoc]
    exact congrArg _ ih

include hlist hliteral in
/-- **What the children contain is what the places of the body contain, followed by what the
children without a place contain.** -/
theorem contents_apply_append_surplus (layout : Layout) (cs : List Converted) :
    (layout.apply cs).contents content ++
      (surplus Converted.present layout cs).flatMap content = cs.flatMap content := by
  have habsent : content .absent = [] := hliteral .nil
  cases layout with
  | slots places => exact fieldContents_fill_append hliteral places cs
  | everything name => simp [apply, surplus, hlist]
  | leading names others =>
    have hfill := fieldContents_fill_append hliteral (names.map fun name => ⟨name, false⟩) cs
    rw [List.length_map] at hfill
    simpa [apply, surplus, hlist] using hfill
  | dispatch head middle =>
    have helse := fieldContents_entry hliteral ⟨elseClause, true⟩
      (cs.tail.getLast?.getD .absent)
    have htail := flatMap_dropLast_append habsent cs.tail
    have hcs := headD_append_flatMap_tail habsent cs
    rw [← htail] at hcs
    simpa [apply, surplus, hlist, helse] using hcs
  | initAndLast initial last =>
    simp [apply, surplus, hlist, flatMap_dropLast_append habsent]
  | whenPresent name =>
    have hhead : cs.head?.any Converted.present = (cs.headD .absent).present := by
      cases cs <;> rfl
    rw [surplus, apply, hhead]
    split_ifs <;> simp [hlist]
  | constants entries =>
    have hentries : ((constants entries).apply cs).contents content = [] := by
      simp only [apply, contents_fields, fieldContents, List.flatMap_eq_nil_iff, List.map_map,
        List.mem_map]
      rintro _ ⟨entry, -, rfl⟩
      exact hliteral entry.2
    rw [hentries, surplus, List.nil_append]
  | children => exact List.append_nil _

end Conservation

end Layout

/-! ### Trees without surplus nodes -/

namespace Tree

mutual
/-- A tree in which every surplus child is a literal. -/
def NoSurplus : Tree → Prop
  | .node kind children _ =>
    (∀ child ∈ kind.layout.surplus present children, child.isNode = false) ∧
      AllNoSurplus children
  | .literal _ => True

/-- Trees in which every surplus child is a literal. -/
def AllNoSurplus : List Tree → Prop
  | [] => True
  | tree :: trees => NoSurplus tree ∧ AllNoSurplus trees
end

mutual
instance decidableNoSurplus : (tree : Tree) → Decidable tree.NoSurplus
  | .node kind children _ =>
    have := decidableAllNoSurplus children
    inferInstanceAs (Decidable ((∀ child ∈ kind.layout.surplus present children,
      child.isNode = false) ∧ AllNoSurplus children))
  | .literal _ => inferInstanceAs (Decidable True)

instance decidableAllNoSurplus : (trees : List Tree) → Decidable (AllNoSurplus trees)
  | [] => inferInstanceAs (Decidable True)
  | tree :: trees =>
    have := decidableNoSurplus tree
    have := decidableAllNoSurplus trees
    inferInstanceAs (Decidable (tree.NoSurplus ∧ AllNoSurplus trees))
end

theorem allNoSurplus_iff (trees : List Tree) :
    AllNoSurplus trees ↔ ∀ tree ∈ trees, tree.NoSurplus := by
  induction trees with
  | nil => simp [AllNoSurplus]
  | cons tree trees ih => simp [AllNoSurplus, ih]

end Tree

/-! ### Conversion keeps the nodes that have a place -/

section Sublists
variable {α β : Type} {f g : α → List β}

theorem flatMap_sublist_flatMap {items : List α} (h : ∀ x ∈ items, (f x).Sublist (g x)) :
    (items.flatMap f).Sublist (items.flatMap g) := by
  induction items with
  | nil => exact List.Sublist.refl _
  | cons x items ih =>
    rw [List.flatMap_cons, List.flatMap_cons]
    exact (h x (List.mem_cons_self ..)).append (ih fun y hy => h y (List.mem_cons_of_mem _ hy))

/-- Parts of lists make up the whole only if each part is the whole of its list. -/
theorem append_eq_append_iff_of_sublist {as bs as' bs' : List β} (h : as.Sublist as')
    (h' : bs.Sublist bs') : as ++ bs = as' ++ bs' ↔ as = as' ∧ bs = bs' := by
  constructor
  · intro heq
    have hlen := congrArg List.length heq
    rw [List.length_append, List.length_append] at hlen
    have hle := h.length_le
    have hle' := h'.length_le
    exact ⟨h.eq_of_length (by omega), h'.eq_of_length (by omega)⟩
  · rintro ⟨rfl, rfl⟩
    rfl

theorem flatMap_eq_flatMap_iff {items : List α} (h : ∀ x ∈ items, (f x).Sublist (g x)) :
    items.flatMap f = items.flatMap g ↔ ∀ x ∈ items, f x = g x := by
  induction items with
  | nil => simp
  | cons x items ih =>
    have htail : ∀ y ∈ items, (f y).Sublist (g y) := fun y hy => h y (List.mem_cons_of_mem _ hy)
    rw [List.flatMap_cons, List.flatMap_cons,
      append_eq_append_iff_of_sublist (h x (List.mem_cons_self ..)) (flatMap_sublist_flatMap htail),
      ih htail, List.forall_mem_cons]

end Sublists

section Conversion
variable (ctx : Context)

theorem Converted.present_convertTree (depth : UInt64) (tree : Tree) :
    (convertTree ctx depth tree).1.present = tree.present := by
  rw [convertTree_fst, Tree.present_levels]

/-- The kinds of a node that is not cut off, with those of its surplus children, are its own kind
and those that its children are converted to. -/
theorem kinds_convertTree_node {depth : UInt64} (hlimit : ¬ ctx.maxDepth ≤ depth) (kind : Kind)
    (children : List Tree) (location : Option Location) :
    (convertTree ctx depth (.node kind children location)).1.kinds ++
        (kind.layout.surplus Tree.present children).flatMap
          (fun child => (convertTree ctx (depth + 1) child).1.kinds) =
      kind :: children.flatMap fun child => (convertTree ctx (depth + 1) child).1.kinds := by
  have hbody := Layout.contents_apply_append_surplus Converted.kinds_list Converted.kinds_literal
    kind.layout (children.map fun child => (convertTree ctx (depth + 1) child).1)
  rw [← Layout.map_surplus (Converted.present_convertTree ctx (depth + 1)), List.flatMap_map,
    List.flatMap_map] at hbody
  rw [convertTree_node, if_neg hlimit, Converted.kinds_node, List.cons_append, hbody]

/-- **A document has no nodes that its tree does not have.** -/
theorem kinds_convertTree_sublist (depth : UInt64) (tree : Tree) :
    (convertTree ctx depth tree).1.kinds.Sublist tree.kinds := by
  induction tree generalizing depth with
  | literal value => rw [convertTree_literal, Converted.kinds_literal, Tree.kinds_literal]
  | node kind children location ih =>
    by_cases hlimit : ctx.maxDepth ≤ depth
    · rw [convertTree_node, if_pos hlimit, Converted.kinds_node, Tree.kinds_node]
      exact (List.nil_sublist _).cons_cons kind
    · have hchildren := flatMap_sublist_flatMap fun child hchild => ih child hchild (depth + 1)
      have hnode := kinds_convertTree_node ctx hlimit kind children location
      rw [Tree.kinds_node]
      refine List.Sublist.trans ?_ (hchildren.cons_cons kind)
      rw [← hnode]
      exact List.sublist_append_left _ _

theorem kinds_convertTree_eq_nil_iff (depth : UInt64) (tree : Tree) :
    (convertTree ctx depth tree).1.kinds = [] ↔ tree.isNode = false := by
  cases tree with
  | literal value => simp [convertTree_literal, Tree.isNode]
  | node kind children location =>
    rw [convertTree_node]
    split_ifs <;> simp [Tree.isNode]

/-- **A silent conversion keeps all nodes exactly if no surplus child is a node.** -/
theorem kinds_convertTree_eq_iff {depth : UInt64} {tree : Tree}
    (hsilent : (convertTree ctx depth tree).2 = []) :
    (convertTree ctx depth tree).1.kinds = tree.kinds ↔ tree.NoSurplus := by
  induction tree generalizing depth with
  | literal value => simp [convertTree_literal, Tree.NoSurplus]
  | node kind children location ih =>
    have hlimit : ¬ ctx.maxDepth ≤ depth := by
      intro hlimit
      rw [convertTree_node, if_pos hlimit] at hsilent
      cases hsilent
    have hbelow : ∀ child ∈ children, (convertTree ctx (depth + 1) child).2 = [] := by
      rw [convertTree_node, if_neg hlimit] at hsilent
      exact List.flatMap_eq_nil_iff.mp (List.append_eq_nil_iff.mp hsilent).1
    have hsub : ∀ child ∈ children,
        (convertTree ctx (depth + 1) child).1.kinds.Sublist child.kinds :=
      fun child _ => kinds_convertTree_sublist ctx (depth + 1) child
    have hnode := kinds_convertTree_node ctx hlimit kind children location
    have hsurplus : (kind.layout.surplus Tree.present children).flatMap
        (fun child => (convertTree ctx (depth + 1) child).1.kinds) = [] ↔
          ∀ child ∈ kind.layout.surplus Tree.present children, child.isNode = false := by
      rw [List.flatMap_eq_nil_iff]
      exact forall₂_congr fun child _ => kinds_convertTree_eq_nil_iff ctx (depth + 1) child
    have hchildren : children.flatMap (fun child => (convertTree ctx (depth + 1) child).1.kinds) =
        children.flatMap Tree.kinds ↔ Tree.AllNoSurplus children := by
      rw [flatMap_eq_flatMap_iff hsub, Tree.allNoSurplus_iff]
      exact forall₂_congr fun child hchild => ih child hchild (hbelow child hchild)
    rw [Tree.NoSurplus, ← hsurplus, ← hchildren, Tree.kinds_node]
    -- The kinds of the document and the surplus ones together are a part of those of the tree.
    constructor
    · intro heq
      have hlen := congrArg List.length hnode
      have hle := (flatMap_sublist_flatMap hsub).length_le
      rw [heq, List.length_append, List.length_cons, List.length_cons] at hlen
      have hnil : (kind.layout.surplus Tree.present children).flatMap
          (fun child => (convertTree ctx (depth + 1) child).1.kinds) = [] :=
        List.length_eq_zero_iff.mp (by omega)
      rw [heq, hnil, List.append_nil] at hnode
      exact ⟨hnil, (List.cons.inj hnode).2.symm⟩
    · rintro ⟨hnil, heq⟩
      rw [hnil, heq, List.append_nil] at hnode
      exact hnode

end Conversion

/-- **What a silent conversion keeps.** A document has no more nodes than its tree, and if the
conversion reports nothing, it has all of them exactly if no surplus child is a node. -/
theorem convert_keeps_nodes_iff {ctx : Context} {depth : UInt64} {kind : Kind}
    {children : List Tree} {location : Option Location}
    (hsilent : (Tree.convert ctx depth (.node kind children location)).2 = []) :
    ∃ out, (Tree.convert ctx depth (.node kind children location)).1 = some out ∧
      out.kinds.Sublist (Tree.node kind children location).kinds ∧
      (out.kinds.length = (Tree.node kind children location).kinds.length ↔
        (Tree.node kind children location).NoSurplus) := by
  obtain ⟨out, hout⟩ := Tree.exists_levels_node ctx.source (ctx.maxDepth.toNat - depth.toNat) kind
    children location
  rw [← convertTree_fst] at hout
  have hsub := kinds_convertTree_sublist ctx depth (.node kind children location)
  have hkeeps := kinds_convertTree_eq_iff ctx hsilent
  rw [hout, Converted.kinds] at hsub hkeeps
  refine ⟨out, ?_, hsub, ?_⟩
  · rw [Tree.convert, hout]
    rfl
  · rw [← hkeeps]
    exact ⟨hsub.eq_of_length, congrArg List.length⟩

/-- A condition with a literal too many has no surplus node, and its document has both nodes. -/
theorem convert_keeps_nodes_if : (Tree.convert {} 0 (.node (.ofName "if")
    [.node (.ofName "true") [] none, .literal .nil, .literal .nil, .literal (.str "x")] none)).2 =
      [] ∧
    ∃ out, (Tree.convert {} 0 (.node (.ofName "if") [.node (.ofName "true") [] none, .literal .nil,
      .literal .nil, .literal (.str "x")] none)).1 = some out ∧ out.kinds.length = 2 := by
  have hsilent : (Tree.convert {} 0 (.node (.ofName "if") [.node (.ofName "true") [] none,
      .literal .nil, .literal .nil, .literal (.str "x")] none)).2 = [] := by
    decide +kernel
  have hsurplus : (Tree.node (.ofName "if") [.node (.ofName "true") [] none, .literal .nil,
      .literal .nil, .literal (.str "x")] none).NoSurplus := by
    decide +kernel
  obtain ⟨out, hout, -, hkeeps⟩ := convert_keeps_nodes_iff hsilent
  exact ⟨hsilent, out, hout, hkeeps.mpr hsurplus⟩

/-- Three ways to lose a node in silence: below a marker, beyond the slots of a kind, and after a
missing first value of a `return`. Each tree has two nodes, and its document has one. -/
theorem convert_loses_nodes :
    [Tree.node (.ofName "retry") [.node (.ofName "nil") [] none] none,
      .node (.ofName "int") [.literal (.int 1), .node (.ofName "nil") [] none] none,
      .node (.ofName "return") [.literal .nil, .node (.ofName "nil") [] none] none].map
        (fun tree => ((tree.convert {} 0).2, tree.kinds.length,
          (tree.convert {} 0).1.map (·.kinds.length))) =
      [([], 2, some 1), ([], 2, some 1), ([], 2, some 1)] := by
  decide +kernel

end NamedTree
