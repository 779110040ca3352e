import NamedTree.Convert
import Mathlib.Data.List.Basic

/-! # Conversion by the levels that are left

The document of a tree depends on the depth and the depth limit only through their difference, the
number of levels that are left above the limit. `Tree.levels` converts a tree with a given number of
levels left; `convertTree_fst` says that this is the document that conversion makes. The depth is a
64-bit number and the levels are natural numbers: below the limit the depth grows without
overflow (`toNat_depth_add`). -/

namespace NamedTree

namespace Tree

mutual
/-- The document of a tree with so many levels left. -/
def levels (source : String) : ℕ → Tree → Converted
  | _, .literal value => .literal value
  | 0, .node kind _ location => .node (OutputNode.stub kind (.ofLocation source location))
  | left + 1, .node kind children location =>
    .node ⟨kind, .ofLocation source location, kind.layout.apply (allLevels source left children)⟩

/-- The documents of trees that stand side by side with so many levels left. -/
def allLevels (source : String) : ℕ → List Tree → List Converted
  | _, [] => []
  | left, tree :: trees => levels source left tree :: allLevels source left trees
end

theorem allLevels_eq_map (source : String) (left : ℕ) (trees : List Tree) :
    allLevels source left trees = trees.map (levels source left) := by
  induction trees with
  | nil => rw [allLevels, List.map_nil]
  | cons tree trees ih => rw [allLevels, ih, List.map_cons]

@[simp] theorem levels_literal (source : String) (left : ℕ) (value : Literal) :
    levels source left (.literal value) = .literal value := by
  cases left <;> rw [levels]

@[simp] theorem levels_zero_node (source : String) (kind : Kind) (children : List Tree)
    (location : Option Location) : levels source 0 (.node kind children location) =
      .node (OutputNode.stub kind (.ofLocation source location)) := by
  rw [levels]

@[simp] theorem levels_succ_node (source : String) (left : ℕ) (kind : Kind) (children : List Tree)
    (location : Option Location) : levels source (left + 1) (.node kind children location) =
      .node ⟨kind, .ofLocation source location,
        kind.layout.apply (children.map (levels source left))⟩ := by
  rw [levels, allLevels_eq_map]

theorem exists_levels_node (source : String) (left : ℕ) (kind : Kind) (children : List Tree)
    (location : Option Location) :
    ∃ out, levels source left (.node kind children location) = .node out := by
  cases left with
  | zero => exact ⟨_, levels_zero_node ..⟩
  | succ left => exact ⟨_, levels_succ_node ..⟩

end Tree

/-- Up to the limit the depth does not overflow. -/
theorem toNat_depth_add {depth limit : UInt64} {n : ℕ} (h : depth.toNat + n ≤ limit.toNat) :
    (depth + .ofNat n).toNat = depth.toNat + n := by
  have := limit.toNat_lt
  rw [UInt64.toNat_add, UInt64.toNat_ofNat']
  omega

/-- **Conversion depends on the depth and its limit only through the levels that are left.** -/
theorem convertTree_fst (ctx : Context) (depth : UInt64) (tree : Tree) :
    (convertTree ctx depth tree).1 =
      tree.levels ctx.source (ctx.maxDepth.toNat - depth.toNat) := by
  induction tree generalizing depth with
  | literal value => rw [convertTree_literal, Tree.levels_literal]
  | node kind children location ih =>
    rw [convertTree_node]
    split_ifs with hlimit <;> rw [UInt64.le_iff_toNat_le] at hlimit
    · have hleft : ctx.maxDepth.toNat - depth.toNat = 0 := by omega
      rw [hleft, Tree.levels_zero_node]
    · have hlt : depth.toNat + 1 ≤ ctx.maxDepth.toNat := by omega
      have hdepth : (depth + 1).toNat = depth.toNat + 1 := toNat_depth_add hlt
      have hleft : ctx.maxDepth.toNat - depth.toNat =
          ctx.maxDepth.toNat - (depth + 1).toNat + 1 := by
        omega
      have hchildren := List.map_congr_left fun child hchild => ih child hchild (depth + 1)
      rw [hleft, Tree.levels_succ_node]
      simp only [hchildren]

end NamedTree
