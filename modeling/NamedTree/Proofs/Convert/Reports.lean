import NamedTree.Proofs.Convert.Levels
import NamedTree.Proofs.Tree.Stable

/-! # What a conversion reports

The diagnostics of a conversion are those of the nodes that it reaches, in post-order
(`convert_reports`). The nodes are enumerated without regard to any limit (`Tree.postorder`), each
with its distance from the root. Conversion reaches the root and every node that does not lie below
the depth limit (`Context.reaches`), whether or not the node has a place in the document, and what a
reached node reports depends on its distance and its kind alone (`Context.report`).

A node is unhandled if its kind is not the kind of a known name. If all kinds were looked up by
name, as they are in every tree that is read, this is to say that the name is not known. A kind that
was not can be unknown under a known name, and is unhandled all the same
(`convert_reports_unknown_if`).

The induction follows the tree and keeps two facts about the node at hand: its depth is the depth of
the root plus its distance, without overflow, and it is reached. -/

namespace NamedTree

/-- A node of a tree, as an enumeration comes to it. -/
structure Visit where
  distance : ℕ
  kind : Kind

mutual
/-- The nodes of a tree whose root lies at the given distance, children before their parent. -/
def Tree.postorder (distance : ℕ) : Tree → List Visit
  | .node kind children _ => Tree.allPostorder (distance + 1) children ++ [⟨distance, kind⟩]
  | .literal _ => []

/-- The nodes of trees whose roots lie at the given distance, one tree after the other. -/
def Tree.allPostorder (distance : ℕ) : List Tree → List Visit
  | [] => []
  | tree :: trees => Tree.postorder distance tree ++ Tree.allPostorder distance trees
end

/-- Whether the conversion of a root at the given depth reaches a node: the root itself, and a node
at or above the limit. -/
def Context.reaches (ctx : Context) (depth : UInt64) (visit : Visit) : Bool :=
  visit.distance = 0 || depth.toNat + visit.distance ≤ ctx.maxDepth.toNat

/-- What a node reports when the root stands at the given depth: that it is cut off at the limit, or
that it is unhandled because its kind is not known. -/
def Context.report (ctx : Context) (known : Kind → Bool) (depth : UInt64) (visit : Visit) :
    List Diagnostic :=
  if ctx.maxDepth.toNat ≤ depth.toNat + visit.distance then
    [⟨.warn, "Reached max JSON depth on a " ++ visit.kind.name ++ " node"⟩]
  else if known visit.kind then []
  else [⟨.warn, "Unhandled AST node type: " ++ visit.kind.name ++ " - " ++
    ctx.file.getD "<unknown file>"⟩]

/-- What the nodes of an enumeration report that are reached. -/
def Context.reports (ctx : Context) (known : Kind → Bool) (depth : UInt64) (visits : List Visit) :
    List Diagnostic :=
  (visits.filter (ctx.reaches depth)).flatMap (ctx.report known depth)

theorem Context.reports_append (ctx : Context) (known : Kind → Bool) (depth : UInt64)
    (before after : List Visit) : ctx.reports known depth (before ++ after) =
      ctx.reports known depth before ++ ctx.reports known depth after := by
  rw [reports, reports, reports, List.filter_append, List.flatMap_append]

/-- Only which of the kinds are known matters that the enumeration comes to. -/
theorem Context.reports_congr {ctx : Context} {known known' : Kind → Bool} {depth : UInt64}
    {visits : List Visit} (h : ∀ visit ∈ visits, known visit.kind = known' visit.kind) :
    ctx.reports known depth visits = ctx.reports known' depth visits := by
  refine List.flatMap_congr fun visit hvisit => ?_
  rw [report, report, h visit (List.mem_of_mem_filter hvisit)]

/-! ### Kinds without a row -/

/-- No row falls back. -/
theorem Row.category_ne_fallback : ∀ row ∈ Row.table, row.category ≠ .fallback := by
  decide +kernel

theorem Kind.category_eq_fallback_iff (kind : Kind) :
    kind.category = .fallback ↔ kind.isKnown = false := by
  cases kind with
  | known row =>
    have hrow := Row.category_ne_fallback _ (List.get_mem Row.table row)
    simpa [category, isKnown] using hrow
  | unknown name => simp [category, isKnown]

/-- The kinds of the known names are those with a row. -/
theorem Kind.mem_map_ofName_iff (kind : Kind) :
    kind ∈ Row.names.map ofName ↔ kind.isKnown = true := by
  rw [List.mem_map]
  cases kind with
  | known row =>
    have hmem : (known row).name ∈ Row.names := List.mem_map_of_mem (List.get_mem Row.table row)
    exact iff_of_true ⟨_, hmem, ofName_name_of_known row⟩ rfl
  | unknown name =>
    refine iff_of_false ?_ Bool.noConfusion
    rintro ⟨other, hmem, hkind⟩
    exact (ofName_eq_unknown hkind).2 hmem

/-- A kind that was looked up by its name is the kind of a known name exactly if its name is. -/
theorem Kind.mem_map_ofName_iff_name_mem {kind : Kind} (h : ofName kind.name = kind) :
    kind ∈ Row.names.map ofName ↔ kind.name ∈ Row.names := by
  rw [List.mem_map]
  constructor
  · rintro ⟨name, hmem, rfl⟩
    rwa [name_ofName]
  · intro hmem
    exact ⟨kind.name, hmem, h⟩

/-- Above the limit a node reports its own diagnostics. -/
theorem Context.report_of_lt {ctx : Context} {depth : UInt64} {visit : Visit}
    (h : depth.toNat + visit.distance < ctx.maxDepth.toNat) :
    ctx.report Kind.isKnown depth visit = ctx.ownDiagnostics visit.kind := by
  rw [report, if_neg (Nat.not_le_of_lt h), ownDiagnostics]
  cases hknown : visit.kind.isKnown with
  | false => rw [if_pos (visit.kind.category_eq_fallback_iff.mpr hknown)]; rfl
  | true =>
    have hcategory : ¬ visit.kind.category = .fallback := by
      rw [visit.kind.category_eq_fallback_iff, hknown]
      exact Bool.noConfusion
    rw [if_neg hcategory]
    rfl

/-! ### The reports of a tree -/

theorem Tree.allPostorder_eq_flatMap (distance : ℕ) (trees : List Tree) :
    allPostorder distance trees = trees.flatMap (postorder distance) := by
  induction trees with
  | nil => rw [allPostorder, List.flatMap_nil]
  | cons tree trees ih => rw [allPostorder, ih, List.flatMap_cons]

theorem Tree.le_distance {distance : ℕ} {tree : Tree} {visit : Visit}
    (h : visit ∈ tree.postorder distance) : distance ≤ visit.distance := by
  induction tree generalizing distance with
  | literal value => rw [postorder] at h; cases h
  | node kind children location ih =>
    rw [postorder, allPostorder_eq_flatMap, List.mem_append, List.mem_singleton] at h
    rcases h with h | rfl
    · obtain ⟨child, hchild, h⟩ := List.mem_flatMap.mp h
      have := ih child hchild h
      omega
    · exact Nat.le_refl _

/-- Nothing below the limit reports. -/
theorem Context.reports_eq_nil {ctx : Context} {depth : UInt64} {distance : ℕ}
    (h : ctx.maxDepth.toNat ≤ depth.toNat + distance) (trees : List Tree) :
    ctx.reports Kind.isKnown depth (Tree.allPostorder (distance + 1) trees) = [] := by
  have hfilter : (Tree.allPostorder (distance + 1) trees).filter (ctx.reaches depth) = [] := by
    rw [List.filter_eq_nil_iff, Tree.allPostorder_eq_flatMap]
    intro visit hvisit
    obtain ⟨tree, -, hvisit⟩ := List.mem_flatMap.mp hvisit
    have := Tree.le_distance hvisit
    simp only [reaches, Bool.or_eq_true, decide_eq_true_eq, not_or]
    omega
  rw [reports, hfilter, List.flatMap_nil]

theorem Context.reports_allPostorder (ctx : Context) (known : Kind → Bool) (depth : UInt64)
    (distance : ℕ) (trees : List Tree) :
    ctx.reports known depth (Tree.allPostorder distance trees) =
      trees.flatMap fun tree => ctx.reports known depth (tree.postorder distance) := by
  induction trees with
  | nil => rw [Tree.allPostorder]; rfl
  | cons tree trees ih => rw [Tree.allPostorder, reports_append, ih, List.flatMap_cons]

/-- A reached node and those below it report their diagnostics in post-order. -/
theorem convertTree_snd (ctx : Context) (start : UInt64) (tree : Tree) :
    ∀ (distance : ℕ) (depth : UInt64), depth.toNat = start.toNat + distance →
      (distance = 0 ∨ depth.toNat ≤ ctx.maxDepth.toNat) →
        (convertTree ctx depth tree).2 =
          ctx.reports Kind.isKnown start (tree.postorder distance) := by
  induction tree with
  | literal value =>
    intro distance depth _ _
    rw [convertTree_literal, Tree.postorder]
    rfl
  | node kind children location ih =>
    intro distance depth hdepth hreached
    have hroot : ctx.reports Kind.isKnown start [⟨distance, kind⟩] =
        ctx.report Kind.isKnown start ⟨distance, kind⟩ := by
      have hreaches : ctx.reaches start ⟨distance, kind⟩ = true := by
        simp only [Context.reaches, Bool.or_eq_true, decide_eq_true_eq]
        omega
      simp [Context.reports, hreaches]
    rw [convertTree_node, Tree.postorder, ctx.reports_append, hroot]
    by_cases hlimit : ctx.maxDepth ≤ depth
    · have hle : ctx.maxDepth.toNat ≤ start.toNat + distance := by
        rw [← hdepth]
        exact UInt64.le_iff_toNat_le.mp hlimit
      rw [if_pos hlimit, Context.reports_eq_nil hle, Context.report, if_pos hle, List.nil_append]
      rfl
    · have hlt : depth.toNat < ctx.maxDepth.toNat := by
        rw [UInt64.le_iff_toNat_le] at hlimit
        omega
      have hnext : (depth + 1).toNat = depth.toNat + 1 := toNat_depth_add hlt
      have hchildren : children.flatMap (fun child => (convertTree ctx (depth + 1) child).2) =
          children.flatMap fun child =>
            ctx.reports Kind.isKnown start (child.postorder (distance + 1)) :=
        List.flatMap_congr fun child hchild =>
          ih child hchild (distance + 1) (depth + 1) (by omega) (Or.inr (by omega))
      have hown : ctx.report Kind.isKnown start ⟨distance, kind⟩ = ctx.ownDiagnostics kind :=
        Context.report_of_lt (by simp only; omega)
      rw [if_neg hlimit, hown, ctx.reports_allPostorder, ← hchildren]

/-- The kinds of a tree that is read were looked up by name. -/
theorem Tree.ofName_name_of_ofJson? {v : Json} {tree : Tree} (h : ofJson? v = some tree) :
    ∀ distance, ∀ visit ∈ tree.postorder distance, Kind.ofName visit.kind.name = visit.kind := by
  refine (of_read (Q := fun _ => True) (P := fun tree => ∀ distance,
    ∀ visit ∈ tree.postorder distance, Kind.ofName visit.kind.name = visit.kind)
    (fun _ _ _ _ => trivial) ?literal ?node v trivial).1 tree h
  case literal =>
    intro v l _ _ _ distance visit hvisit
    rw [postorder] at hvisit
    cases hvisit
  case node =>
    intro name children location ih distance visit hvisit
    rw [postorder, allPostorder_eq_flatMap, List.mem_append, List.mem_singleton] at hvisit
    rcases hvisit with hvisit | rfl
    · obtain ⟨child, hchild, hvisit⟩ := List.mem_flatMap.mp hvisit
      exact ih child hchild (distance + 1) visit hvisit
    · rw [Kind.name_ofName]

theorem Sink.entries_emitAll_collecting (diagnostics entries logged : List Diagnostic) :
    (emitAll ⟨.collecting, entries, logged⟩ diagnostics).entries = entries ++ diagnostics := by
  induction diagnostics generalizing entries with
  | nil => rw [List.append_nil]; rfl
  | cons diagnostic diagnostics ih =>
    have h := ih (entries ++ [diagnostic])
    rw [List.append_assoc] at h
    exact h

/-- **The diagnostics of a conversion are those of the nodes it reaches, in post-order.** A sink
that collects them holds them in this order after what it held before. What is known are the kinds
of the known names; for a tree whose kinds were looked up by name, and so for every tree that is
read, these are the kinds that have a known name. -/
theorem convert_reports (ctx : Context) (depth : UInt64) (tree : Tree) :
    (tree.convert ctx depth).2 =
      ctx.reports (fun kind => kind ∈ Row.names.map .ofName) depth (tree.postorder 0) ∧
    (∀ entries logged,
      (Sink.emitAll ⟨.collecting, entries, logged⟩ (tree.convert ctx depth).2).entries =
        entries ++ (tree.convert ctx depth).2) ∧
    ((∀ visit ∈ tree.postorder 0, Kind.ofName visit.kind.name = visit.kind) →
      (tree.convert ctx depth).2 =
        ctx.reports (fun kind => kind.name ∈ Row.names) depth (tree.postorder 0)) ∧
    ∀ v, Tree.ofJson? v = some tree →
      ∀ visit ∈ tree.postorder 0, Kind.ofName visit.kind.name = visit.kind := by
  have hrow : (tree.convert ctx depth).2 = ctx.reports Kind.isKnown depth (tree.postorder 0) :=
    convertTree_snd ctx depth tree 0 depth (by omega) (Or.inl rfl)
  have hknown : ctx.reports (fun kind => kind ∈ Row.names.map .ofName) depth (tree.postorder 0) =
      ctx.reports Kind.isKnown depth (tree.postorder 0) :=
    Context.reports_congr fun visit _ =>
      Bool.eq_iff_iff.mpr (by rw [decide_eq_true_iff, visit.kind.mem_map_ofName_iff])
  refine ⟨hrow.trans hknown.symm, ?collected, ?named, ?read⟩
  case collected => exact Sink.entries_emitAll_collecting _
  case named =>
    intro hnamed
    rw [hrow, ← hknown]
    exact Context.reports_congr fun visit hvisit =>
      decide_eq_decide.mpr (Kind.mem_map_ofName_iff_name_mem (hnamed visit hvisit))
  case read => exact fun v h => Tree.ofName_name_of_ofJson? h 0

/-- A child that the layout drops reports all the same, before its parent. -/
theorem convert_reports_dropped_child : ∃ v tree,
    v = Json.obj [("type", .str "x"), ("children", .arr [.obj [("type", .str "retry"),
      ("children", .arr [.obj [("type", .str "y")], .null])]])] ∧
    tree = Tree.node (.ofName "x") [.node (.ofName "retry")
      [.node (.ofName "y") [] none, .literal .nil] none] none ∧
    Tree.ofJson? v = some tree ∧
    (∀ visit ∈ tree.postorder 0, Kind.ofName visit.kind.name = visit.kind) ∧
    (tree.convert { maxDepth := 2 } 0).2 =
      [⟨.warn, "Reached max JSON depth on a y node"⟩,
        ⟨.warn, "Unhandled AST node type: x - <unknown file>"⟩] := by
  refine ⟨_, _, rfl, rfl, ?read, ?named, ((convert_reports _ _ _).2.2.1 ?named).trans ?reports⟩
  case read => rfl
  case named => decide +kernel
  case reports => decide +kernel

/-- An unknown kind with a known name, which no look-up gives, is unhandled. -/
theorem convert_reports_unknown_if :
    "if" ∈ Row.names ∧
    ((Tree.node (.unknown "if") [] none).convert {} 0).2 =
      [⟨.warn, "Unhandled AST node type: if - <unknown file>"⟩] ∧
    Context.reports {} (fun kind => kind.name ∈ Row.names) 0
      ((Tree.node (.unknown "if") [] none).postorder 0) = [] := by
  decide +kernel

end NamedTree
