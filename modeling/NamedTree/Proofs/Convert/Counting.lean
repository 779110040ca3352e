import NamedTree.Proofs.Convert.Reports

/-! # Counting the depth

A conversion counts the depth up from the root and compares it with the limit. Two conversions of one
tree agree, in the document and in the diagnostics, when they start with equally many levels left
(`convertTree_congr`). The depth is a 64-bit number, but it could as well be a number without bound:
`Context.unbounded` counts with such numbers, and the conversion that counts with them does not differ
from the one that counts with 64 bits, not in its result and not in the numbers that it counts up to.
None of these exceeds the limit (`countTree_unbounded`), so that no machine number is ever exceeded,
even next to the greatest one.

Both facts come from the order of the two steps: a node is compared with the limit before anything is
counted, so that at most the limit itself is reached. -/

namespace NamedTree

/-! ### Counting with numbers without bound -/

/-- Depths are counted with numbers without bound, up to the limit. -/
def Context.unbounded (ctx : Context) : Counter ℕ where
  atLimit depth := ctx.maxDepth.toNat ≤ depth
  next depth := depth + 1

@[simp] theorem Context.unbounded_next (ctx : Context) (depth : ℕ) :
    ctx.unbounded.next depth = depth + 1 := rfl

theorem Context.unbounded_atLimit_iff (ctx : Context) (depth : ℕ) :
    ctx.unbounded.atLimit depth = true ↔ ctx.maxDepth.toNat ≤ depth :=
  decide_eq_true_iff

/-- Counting without bound gives what counting with 64 bits gives, by the same numbers, and none of
them exceeds the limit. -/
structure Context.Counts (ctx : Context) (unbounded : Counted ℕ α) (counted : Counted UInt64 α) :
    Prop where
  result : unbounded.result = counted.result
  counts : unbounded.counts = counted.counts.map UInt64.toNat
  le_limit : ∀ n ∈ unbounded.counts, n ≤ ctx.maxDepth.toNat

theorem Context.Counts.pure (ctx : Context) (a : α) : ctx.Counts (Pure.pure a) (Pure.pure a) :=
  ⟨rfl, rfl, by simp⟩

/-- Below the limit, counting without bound passes from the trees below to the list of them. -/
theorem countChildren_unbounded {ctx : Context} {depth : UInt64} {children : List Tree}
    (hlt : depth.toNat + 1 ≤ ctx.maxDepth.toNat)
    (h : ∀ child ∈ children, ctx.Counts (countTree ctx.unbounded ctx (depth.toNat + 1) child)
      (countTree ctx.counter ctx (depth + 1) child)) :
    ctx.Counts (countChildren ctx.unbounded ctx depth.toNat children)
      (countChildren ctx.counter ctx depth children) := by
  have hnext : (depth + 1).toNat = depth.toNat + 1 := toNat_depth_add hlt
  induction children with
  | nil =>
    rw [countChildren, countChildren]
    exact .pure ctx _
  | cons child children ih =>
    have hfirst := h child (List.mem_cons_self ..)
    have hothers := ih fun other hother => h other (List.mem_cons_of_mem _ hother)
    rw [countChildren, countChildren]
    cases child with
    | literal value =>
      refine ⟨by simp [countTree, hothers.result], by simp [countTree, hothers.counts], ?_⟩
      intro n hn
      exact hothers.le_limit n (by simpa [countTree] using hn)
    | node kind grandchildren location =>
      refine ⟨by simp [hfirst.result, hothers.result],
        by simp [hfirst.counts, hothers.counts, hnext], ?_⟩
      intro n hn
      simp only [Counted.counts_bind, Counted.counts_pure, Counter.below_node,
        Context.unbounded_next, List.append_nil, List.mem_append, List.mem_singleton] at hn
      rcases hn with rfl | hn | hn
      · exact hlt
      · exact hfirst.le_limit n hn
      · exact hothers.le_limit n hn

/-- **The depth is counted without overflow.** Counting with machine numbers is counting with numbers
without bound, and no count exceeds the limit. -/
theorem countTree_unbounded (ctx : Context) (depth : UInt64) (tree : Tree) :
    ctx.Counts (countTree ctx.unbounded ctx depth.toNat tree)
      (countTree ctx.counter ctx depth tree) := by
  induction tree generalizing depth with
  | literal value =>
    rw [countTree, countTree]
    exact .pure ctx _
  | node kind children location ih =>
    rw [countTree, countTree]
    simp only [ctx.unbounded_atLimit_iff, ctx.counter_atLimit_iff]
    by_cases hlimit : ctx.maxDepth ≤ depth
    · rw [if_pos (UInt64.le_iff_toNat_le.mp hlimit), if_pos hlimit]
      exact .pure ctx _
    · have hlt : depth.toNat + 1 ≤ ctx.maxDepth.toNat := by
        rw [UInt64.le_iff_toNat_le] at hlimit
        omega
      have hnext : (depth + 1).toNat = depth.toNat + 1 := toNat_depth_add hlt
      have hchildren := countChildren_unbounded hlt fun child hchild =>
        hnext ▸ ih child hchild (depth + 1)
      rw [if_neg (by omega), if_neg hlimit]
      refine ⟨by simp [hchildren.result], by simp [hchildren.counts], fun n hn => ?_⟩
      exact hchildren.le_limit n (by simpa using hn)

/-! ### Equally many levels left -/

/-- **Conversions with equally many levels left agree.** One level below, both have one level less. -/
theorem convertTree_congr {source : String} {file : Option String}
    {limit limit' depth depth' : UInt64}
    (h : limit.toNat - depth.toNat = limit'.toNat - depth'.toNat) (tree : Tree) :
    convertTree ⟨source, file, limit⟩ depth tree =
      convertTree ⟨source, file, limit'⟩ depth' tree := by
  induction tree generalizing depth depth' with
  | literal value => rw [convertTree_literal, convertTree_literal]
  | node kind children location ih =>
    rw [convertTree_node, convertTree_node]
    simp only [UInt64.le_iff_toNat_le]
    by_cases hlimit : limit.toNat ≤ depth.toNat
    · rw [if_pos hlimit, if_pos (by omega)]
    · have hlt : depth.toNat + 1 ≤ limit.toNat := by omega
      have hlt' : depth'.toNat + 1 ≤ limit'.toNat := by omega
      have hnext : (depth + 1).toNat = depth.toNat + 1 := toNat_depth_add hlt
      have hnext' : (depth' + 1).toNat = depth'.toNat + 1 := toNat_depth_add hlt'
      have hleft : limit.toNat - (depth + 1).toNat = limit'.toNat - (depth' + 1).toNat := by omega
      have hdocuments := List.map_congr_left fun child hchild =>
        congrArg Prod.fst (ih child hchild hleft)
      have hdiagnostics := List.flatMap_congr fun child hchild =>
        congrArg Prod.snd (ih child hchild hleft)
      rw [if_neg hlimit, if_neg (by omega), hdocuments, hdiagnostics]
      rfl

/-- **Only the levels that are left matter.** Conversions with equally many levels left give the same
document and the same diagnostics. Each of them counts its depth as a number without bound would be
counted, at most up to the limit, and so within 64 bits. -/
theorem convert_eq_of_levels_left (source : String) (file : Option String)
    {limit limit' depth depth' : UInt64}
    (h : limit.toNat - depth.toNat = limit'.toNat - depth'.toNat) (tree : Tree) :
    let ctx : Context := ⟨source, file, limit⟩
    tree.convert ctx depth = tree.convert ⟨source, file, limit'⟩ depth' ∧
    (countTree ctx.unbounded ctx depth.toNat tree).result = convertTree ctx depth tree ∧
    (countTree ctx.unbounded ctx depth.toNat tree).counts =
      (countTree ctx.counter ctx depth tree).counts.map UInt64.toNat ∧
    ∀ n ∈ (countTree ctx.unbounded ctx depth.toNat tree).counts,
      n ≤ limit.toNat ∧ n < UInt64.size := by
  intro ctx
  have hcounts := countTree_unbounded ctx depth tree
  refine ⟨?_, hcounts.result, hcounts.counts, fun n hn => ?_⟩
  · simp only [ctx, Tree.convert, convertTree_congr h]
  · have hle : n ≤ limit.toNat := hcounts.le_limit n hn
    exact ⟨hle, Nat.lt_of_le_of_lt hle limit.toNat_lt⟩

/-- Two levels below the greatest number of 64 bits, and two levels anywhere else: the greatest number
is counted up to, and not exceeded. -/
theorem convert_eq_of_levels_left_at_end :
    (18446744073709551615 : UInt64).toNat - (18446744073709551613 : UInt64).toNat =
      (7 : UInt64).toNat - (5 : UInt64).toNat ∧
    ∃ tree, tree = Tree.node (.ofName "begin") [.node (.ofName "if") [.node (.unknown "x") [] none]
        none, .literal .nil] none ∧
      tree.convert ⟨"", none, 18446744073709551615⟩ 18446744073709551613 =
        tree.convert ⟨"", none, 7⟩ 5 ∧
      let ctx : Context := ⟨"", none, 18446744073709551615⟩
      (countTree ctx.unbounded ctx (18446744073709551613 : UInt64).toNat tree).result =
        convertTree ctx 18446744073709551613 tree ∧
      (countTree ctx.unbounded ctx (18446744073709551613 : UInt64).toNat tree).counts =
        (countTree ctx.counter ctx 18446744073709551613 tree).counts.map UInt64.toNat ∧
      (countTree ctx.counter ctx 18446744073709551613 tree).counts =
        [18446744073709551614, 18446744073709551615] := by
  have hlevels : (18446744073709551615 : UInt64).toNat - (18446744073709551613 : UInt64).toNat =
      (7 : UInt64).toNat - (5 : UInt64).toNat := by
    decide
  have hcongr := convert_eq_of_levels_left "" none hlevels
  refine ⟨hlevels, _, rfl, (hcongr _).1, (hcongr _).2.1, (hcongr _).2.2.1, ?_⟩
  decide +kernel

end NamedTree
