import NamedTree.Proofs.Convert.Levels
import NamedTree.Proofs.Output.Normal

/-! # No information is lost on conforming trees

A tree *conforms* when no layout in it drops a child (`Tree.Conforming`). Above the depth limit two
conforming trees have the same output document exactly if they have the same *normal form*
(`convert_eq_convert_iff`). In the normal form of a tree the children of each node are padded with
`nil` to the least number that fills every place, `false` in an optional slot is `nil`, and each
location spells out the line and column `-1` that stand for missing ones.

So what conversion forgets is whether a missing child was written as `nil`, whether an optional one
was `nil` or `false`, and whether a missing line or column was written as `-1`. -/

namespace NamedTree

/-- The location with the line and column `-1` in place of missing ones. -/
def Location.normal (location : Option Location) : Location where
  line := some ((location.bind Location.line).getD (-1))
  column := some ((location.bind Location.column).getD (-1))
  lastLine := some ((location.bind Location.lastLine).getD (-1))
  lastColumn := some ((location.bind Location.lastColumn).getD (-1))
  expression := range? location

theorem MetaData.ofLocation_normal (source : String) (location : Option Location) :
    ofLocation source (some (Location.normal location)) = ofLocation source location := rfl

theorem Location.normal_eq_of_ofLocation_eq {source : String} {location location' : Option Location}
    (h : MetaData.ofLocation source location = MetaData.ofLocation source location') :
    normal location = normal location' := by
  simp only [MetaData.ofLocation, MetaData.mk.injEq] at h
  obtain ⟨hline, hcolumn, hlastLine, hlastColumn, hfirst, hlast, -⟩ := h
  have hrange : range? location = range? location' := by
    generalize range? location = range at hfirst hlast ⊢
    generalize range? location' = range' at hfirst hlast ⊢
    rcases range with _ | ⟨first, last⟩ <;> rcases range' with _ | ⟨first', last'⟩ <;> simp_all
  simp only [normal, hline, hcolumn, hlastLine, hlastColumn, hrange]

namespace Tree

/-- What a missing child is written as. -/
def nil : Tree := .literal .nil

/-- Everything but the literals `nil` and `false` is present. -/
def present : Tree → Bool
  | .node .. => true
  | .literal value => value.truthy

mutual
/-- A tree in which no layout drops a child. -/
def Conforming : Tree → Prop
  | .node kind children _ => kind.layout.Fits present children ∧ AllConforming children
  | .literal _ => True

/-- All trees of a list conform. -/
def AllConforming : List Tree → Prop
  | [] => True
  | tree :: trees => Conforming tree ∧ AllConforming trees
end

mutual
instance decidableConforming : (tree : Tree) → Decidable tree.Conforming
  | .node kind children _ =>
    have := decidableAllConforming children
    inferInstanceAs (Decidable (kind.layout.Fits present children ∧ AllConforming children))
  | .literal _ => inferInstanceAs (Decidable True)

instance decidableAllConforming : (trees : List Tree) → Decidable (AllConforming trees)
  | [] => inferInstanceAs (Decidable True)
  | tree :: trees =>
    have := decidableConforming tree
    have := decidableAllConforming trees
    inferInstanceAs (Decidable (tree.Conforming ∧ AllConforming trees))
end

mutual
/-- The number of nodes on the longest way down a tree. -/
def height : Tree → ℕ
  | .node _ children _ => maxHeight children + 1
  | .literal _ => 0

/-- The greatest height among trees. -/
def maxHeight : List Tree → ℕ
  | [] => 0
  | tree :: trees => max (height tree) (maxHeight trees)
end

mutual
/-- The normal form of a tree. -/
def normal : Tree → Tree
  | .node kind children location =>
    .node kind (kind.layout.normalize nil present (allNormal children))
      (some (Location.normal location))
  | .literal value => .literal value

/-- The normal forms of trees. -/
def allNormal : List Tree → List Tree
  | [] => []
  | tree :: trees => normal tree :: allNormal trees
end

theorem allConforming_iff (trees : List Tree) :
    AllConforming trees ↔ ∀ tree ∈ trees, tree.Conforming := by
  induction trees with
  | nil => simp [AllConforming]
  | cons tree trees ih => simp [AllConforming, ih]

theorem allNormal_eq_map (trees : List Tree) : allNormal trees = trees.map normal := by
  induction trees with
  | nil => rw [allNormal, List.map_nil]
  | cons tree trees ih => rw [allNormal, ih, List.map_cons]

theorem height_le_maxHeight {trees : List Tree} {tree : Tree} (h : tree ∈ trees) :
    tree.height ≤ maxHeight trees := by
  induction trees with
  | nil => cases h
  | cons first trees ih =>
    rw [maxHeight]
    rcases List.mem_cons.mp h with rfl | h
    · exact Nat.le_max_left ..
    · exact Nat.le_trans (ih h) (Nat.le_max_right ..)

theorem levels_nil (source : String) (left : ℕ) : nil.levels source left = Converted.absent :=
  levels_literal source left .nil

theorem present_levels (source : String) (left : ℕ) (tree : Tree) :
    (tree.levels source left).present = tree.present := by
  cases tree with
  | literal value => rw [levels_literal]; rfl
  | node kind children location =>
    obtain ⟨out, hout⟩ := exists_levels_node source left kind children location
    rw [hout]; rfl

theorem normal_nil : nil.normal = nil := by
  rw [nil, normal]

theorem present_normal (tree : Tree) : tree.normal.present = tree.present := by
  cases tree with
  | literal value => rw [normal]
  | node kind children location => rw [normal]; rfl

/-! ### The normal form has the same document -/

/-- **A tree and its normal form have the same document.** -/
theorem levels_normal (source : String) (left : ℕ) (tree : Tree) :
    tree.normal.levels source left = tree.levels source left := by
  induction tree generalizing left with
  | literal value => rw [normal]
  | node kind children location ih =>
    cases left with
    | zero => rw [normal, levels_zero_node, levels_zero_node, MetaData.ofLocation_normal]
    | succ left =>
      have hchildren : (children.map normal).map (levels source left) =
          children.map (levels source left) := by
        rw [List.map_map]
        exact List.map_congr_left fun child hchild => ih child hchild left
      rw [normal, levels_succ_node, levels_succ_node, MetaData.ofLocation_normal, allNormal_eq_map,
        Layout.map_normalize (levels_nil source left) (present_levels source left), hchildren,
        Layout.apply_normalize]

/-- Levels that no node reaches make no difference. -/
theorem levels_eq_of_height_le (source : String) {left left' : ℕ} {tree : Tree}
    (h : tree.height ≤ left) (h' : tree.height ≤ left') :
    tree.levels source left = tree.levels source left' := by
  induction tree generalizing left left' with
  | literal value => rw [levels_literal, levels_literal]
  | node kind children location ih =>
    rw [height] at h h'
    obtain ⟨left, rfl⟩ : ∃ n, left = n + 1 := ⟨left - 1, by omega⟩
    obtain ⟨left', rfl⟩ : ∃ n, left' = n + 1 := ⟨left' - 1, by omega⟩
    have hchildren : children.map (levels source left) = children.map (levels source left') :=
      List.map_congr_left fun child hchild => by
        have := height_le_maxHeight hchild
        exact ih child hchild (by omega) (by omega)
    rw [levels_succ_node, levels_succ_node, hchildren]

/-! ### The normal form from the document -/

theorem map_eq_map_of_imp {f : α → β} {g : α → γ} : ∀ {items items' : List α},
    items.map f = items'.map f → (∀ a ∈ items, ∀ b ∈ items', f a = f b → g a = g b) →
      items.map g = items'.map g
  | [], [], _, _ => rfl
  | a :: items, b :: items', h, himp => by
    obtain ⟨hab, hrest⟩ := List.cons.inj h
    rw [List.map_cons, List.map_cons, himp a (List.mem_cons_self ..) b (List.mem_cons_self ..) hab,
      map_eq_map_of_imp hrest fun a ha b hb =>
        himp a (List.mem_cons_of_mem _ ha) b (List.mem_cons_of_mem _ hb)]

theorem normal_eq_of_levels_eq_literal {source : String} {left : ℕ} {value : Literal} {tree : Tree}
    (h : levels source left (.literal value) = tree.levels source left) :
    normal (.literal value) = tree.normal := by
  cases tree with
  | literal value' => simpa [normal] using h
  | node kind children location =>
    obtain ⟨out, hout⟩ := exists_levels_node source left kind children location
    rw [levels_literal, hout] at h
    cases h

/-- **Conforming trees with the same document have the same normal form.** -/
theorem normal_eq_of_levels_eq (source : String) (tree : Tree) : ∀ (tree' : Tree) (left : ℕ),
    tree.Conforming → tree'.Conforming → tree.height ≤ left → tree'.height ≤ left →
      tree.levels source left = tree'.levels source left → tree.normal = tree'.normal := by
  induction tree with
  | literal value => exact fun tree' left _ _ _ _ h => normal_eq_of_levels_eq_literal h
  | node kind children location ih =>
    intro tree' left hconf hconf' hheight hheight' h
    cases tree' with
    | literal value => exact (normal_eq_of_levels_eq_literal h.symm).symm
    | node kind' children' location' =>
      rw [height] at hheight hheight'
      obtain ⟨left, rfl⟩ : ∃ n, left = n + 1 := ⟨left - 1, by omega⟩
      rw [levels_succ_node, levels_succ_node] at h
      simp only [Converted.node.injEq, NodeOf.mk.injEq] at h
      obtain ⟨rfl, hmeta, hbody⟩ := h
      rw [Conforming, allConforming_iff] at hconf hconf'
      have hnormal := Layout.normalize_eq_of_apply_eq kind.nodup_layout_names
        (hconf.1.map (present_levels source left)) (hconf'.1.map (present_levels source left)) hbody
      rw [← Layout.map_normalize (levels_nil source left) (present_levels source left),
        ← Layout.map_normalize (levels_nil source left) (present_levels source left)] at hnormal
      have hchildren : (kind.layout.normalize nil present children).map normal =
          (kind.layout.normalize nil present children').map normal := by
        refine map_eq_map_of_imp hnormal fun child hchild child' hchild' heq => ?_
        rcases Layout.mem_normalize hchild with hchild | rfl
        · rcases Layout.mem_normalize hchild' with hchild' | rfl
          · have := height_le_maxHeight hchild
            have := height_le_maxHeight hchild'
            exact ih child hchild child' left (hconf.2 child hchild) (hconf'.2 child' hchild')
              (by omega) (by omega) heq
          · exact (normal_eq_of_levels_eq_literal heq.symm).symm
        · exact normal_eq_of_levels_eq_literal heq
      rw [normal, normal, allNormal_eq_map, allNormal_eq_map,
        ← Layout.map_normalize normal_nil present_normal,
        ← Layout.map_normalize normal_nil present_normal, hchildren,
        Location.normal_eq_of_ofLocation_eq hmeta]

theorem convert_fst_of_isNode (ctx : Context) (depth : UInt64) {tree : Tree}
    (h : tree.isNode = true) : ((tree.convert ctx depth).1).map Converted.node =
      some (tree.levels ctx.source (ctx.maxDepth.toNat - depth.toNat)) := by
  cases tree with
  | literal value => cases h
  | node kind children location =>
    obtain ⟨out, hout⟩ := exists_levels_node ctx.source (ctx.maxDepth.toNat - depth.toNat) kind
      children location
    simp only [convert, convertTree_fst, hout, Converted.asNode, Option.map_some]

/-- **Above the depth limit, conforming trees have the same document exactly if they have the same
normal form.** -/
theorem convert_eq_convert_iff {ctx ctx' : Context} (hsource : ctx.source = ctx'.source)
    {depth depth' : UInt64} {tree tree' : Tree} (hnode : tree.isNode = true)
    (hnode' : tree'.isNode = true) (hconf : tree.Conforming) (hconf' : tree'.Conforming)
    (hheight : depth.toNat + tree.height ≤ ctx.maxDepth.toNat)
    (hheight' : depth'.toNat + tree'.height ≤ ctx'.maxDepth.toNat) :
    (tree.convert ctx depth).1 = (tree'.convert ctx' depth').1 ↔ tree.normal = tree'.normal := by
  have hinj : Function.Injective (Option.map Converted.node) :=
    Option.map_injective fun out out' h => by injection h
  set left := max tree.height tree'.height
  have hle : tree.height ≤ left := Nat.le_max_left ..
  have hle' : tree'.height ≤ left := Nat.le_max_right ..
  rw [← hinj.eq_iff, convert_fst_of_isNode ctx depth hnode,
    convert_fst_of_isNode ctx' depth' hnode', levels_eq_of_height_le ctx.source (by omega) hle,
    ← hsource, levels_eq_of_height_le ctx.source (by omega : tree'.height ≤ _) hle',
    Option.some.injEq]
  constructor
  · exact normal_eq_of_levels_eq ctx.source tree tree' left hconf hconf' hle hle'
  · intro h
    rw [← levels_normal, h, levels_normal]

/-- Missing branches, `nil` and `false` for an `else` and missing and written places leave the same
document. -/
theorem convert_if_without_else :
    (convert { maxDepth := 2 } 0 (.node (.ofName "if") [.node (.ofName "lvar") [] none] none)).1 =
      (convert { maxDepth := 7 } 3 (.node (.ofName "if")
        [.node (.ofName "lvar") [nil] (some { line := some (-1) }), nil, .literal (.bool false)]
        none)).1 := by
  refine (convert_eq_convert_iff ?_ ?_ ?_ ?_ ?_ ?_ ?_).mpr ?_
  · rfl
  · rfl
  · rfl
  · decide
  · decide
  · decide
  · decide
  · rfl

end Tree

end NamedTree
