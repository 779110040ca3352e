import NamedTree.Proofs.Convert.Levels
import NamedTree.Proofs.Output.Truncate

/-! # A lower depth limit truncates the document

Converting with a lower limit gives the document of the higher one, truncated at the lower one
(`convert_truncate`). It does not matter that the two conversions stop at different levels: a layout
looks at a child only to see whether it is present, so it commutes with any change of the children
that keeps presence and literals (`Layout.map_apply`), and a stub is present like the node that it
stands for. -/

namespace NamedTree

/-! ### Layouts and changes of the children -/

section Naturality
variable {f : Converted → Converted} (hliteral : ∀ value, f (.literal value) = .literal value)
  (hlist : ∀ cs, f (.list cs) = .list (cs.map f)) (hpresent : ∀ c, (f c).present = c.present)

/-- Changes what stands in the fields. -/
def mapFields (f : Converted → Converted) (entries : List (String × Converted)) :
    List (String × Converted) :=
  entries.map fun (name, c) => (name, f c)

theorem mapFields_append (before after : List (String × Converted)) :
    mapFields f (before ++ after) = mapFields f before ++ mapFields f after :=
  List.map_append

include hpresent in
theorem Slot.mapFields_entry (slot : Slot) (c : Converted) :
    mapFields f (slot.entry c) = slot.entry (f c) := by
  unfold entry
  rw [hpresent]
  split_ifs
  · rfl
  · rfl

include hliteral hpresent in
theorem Layout.mapFields_fill (places : List Slot) (cs : List Converted) :
    mapFields f (fill places cs) = fill places (cs.map f) := by
  have habsent : f .absent = .absent := hliteral .nil
  fun_induction fill places cs with
  | case1 cs => rw [fill]; rfl
  | case2 place places ih =>
    rw [mapFields_append, ih, place.mapFields_entry hpresent, habsent, List.map_nil, fill]
  | case3 place places c cs ih =>
    rw [mapFields_append, ih, place.mapFields_entry hpresent, List.map_cons, fill]

include hliteral hlist hpresent in
/-- **A layout commutes with any change of the children that keeps presence and literals.** -/
theorem Layout.map_apply (layout : Layout) (cs : List Converted) :
    (layout.apply cs).map f = layout.apply (cs.map f) := by
  have habsent : ∀ c : Option Converted, f (c.getD .absent) = (c.map f).getD .absent := by
    intro c
    cases c with
    | none => exact hliteral .nil
    | some c => rfl
  cases layout with
  | slots places => exact congrArg Body.fields (mapFields_fill hliteral hpresent places cs)
  | everything name => simp [apply, Body.map, hlist]
  | leading names others =>
    have hfill := mapFields_fill hliteral hpresent (names.map fun name => ⟨name, false⟩) cs
    rw [mapFields] at hfill
    simp [apply, Body.map, hlist, hfill]
  | dispatch head middle =>
    have helse := Slot.mapFields_entry hpresent ⟨elseClause, true⟩ (cs.tail.getLast?.getD .absent)
    rw [mapFields, habsent, ← List.getLast?_map, List.map_tail] at helse
    simp [apply, Body.map, hlist, habsent, helse]
  | initAndLast initial last => simp [apply, Body.map, hlist, habsent]
  | whenPresent name =>
    have hhead : ((cs.map f).headD .absent).present = (cs.headD .absent).present := by
      cases cs with
      | nil => rfl
      | cons c cs => exact hpresent c
    simp only [apply, hhead]
    split_ifs
    · simp [Body.map, hlist]
    · rfl
  | constants entries => simp [apply, Body.map, hliteral]
  | children => rfl

end Naturality

/-! ### Converting with fewer levels -/

theorem Converted.present_truncate (left : ℕ) (c : Converted) :
    (c.truncate left).present = c.present := by
  cases c <;> simp [present]

/-- **Converting with fewer levels left truncates the document.** -/
theorem Tree.truncate_levels (source : String) {left left' : ℕ} (h : left ≤ left') (tree : Tree) :
    (tree.levels source left').truncate left = tree.levels source left := by
  induction tree generalizing left left' with
  | literal value => rw [levels_literal, levels_literal, Converted.truncate_literal]
  | node kind children location ih =>
    cases left with
    | zero =>
      cases left' with
      | zero => rw [levels_zero_node, Converted.truncate_node, OutputNode.truncate_zero]; rfl
      | succ left' =>
        rw [levels_succ_node, levels_zero_node, Converted.truncate_node, OutputNode.truncate_zero]
    | succ left =>
      obtain ⟨left', rfl⟩ : ∃ n, left' = n + 1 := ⟨left' - 1, by omega⟩
      have hchildren : (children.map (levels source left')).map (Converted.truncate left) =
          children.map (levels source left) := by
        rw [List.map_map]
        exact List.map_congr_left fun child hchild => ih child hchild (by omega)
      rw [levels_succ_node, levels_succ_node, Converted.truncate_node, OutputNode.truncate_succ,
        Layout.map_apply (Converted.truncate_literal left) (Converted.truncate_list left)
          (Converted.present_truncate left), hchildren]

/-- **A lower depth limit truncates the document.** At the cut the nodes of the document become
stubs, and above it every node shows the same keys, lists and literals under both limits. -/
theorem convert_truncate (source : String) (file : Option String) (depth : UInt64)
    {limit limit' : UInt64} (h : limit ≤ limit') (kind : Kind) (children : List Tree)
    (location : Option Location) :
    ∃ out out' : OutputNode,
      (Tree.convert ⟨source, file, limit⟩ depth (.node kind children location)).1 = some out ∧
      (Tree.convert ⟨source, file, limit'⟩ depth (.node kind children location)).1 = some out' ∧
      out = out'.truncate (limit.toNat - depth.toNat) ∧
      (∀ address, address.length = limit.toNat - depth.toNat →
        out.at? address = (out'.at? address).map fun node => .stub node.kind node.metaData) ∧
      ∀ address, address.length < limit.toNat - depth.toNat →
        (out.at? address).map OutputNode.outline = (out'.at? address).map OutputNode.outline := by
  have hle : limit.toNat - depth.toNat ≤ limit'.toNat - depth.toNat := by
    have := UInt64.le_iff_toNat_le.mp h
    omega
  obtain ⟨out', hout'⟩ :=
    Tree.exists_levels_node source (limit'.toNat - depth.toNat) kind children location
  have hout := Tree.truncate_levels source hle (.node kind children location)
  rw [hout', Converted.truncate_node] at hout
  refine ⟨OutputNode.truncate (limit.toNat - depth.toNat) out', out', ?_, ?_, rfl, ?_, ?_⟩
  · simp only [Tree.convert, convertTree_fst, ← hout, Converted.asNode]
  · simp only [Tree.convert, convertTree_fst, hout', Converted.asNode]
  · intro address hlen
    have hstub : OutputNode.truncate (limit.toNat - depth.toNat - address.length) =
        fun node => .stub node.kind node.metaData := by
      rw [hlen, Nat.sub_self]
      exact funext OutputNode.truncate_zero
    rw [OutputNode.at?_truncate, if_pos (Nat.le_of_eq hlen), hstub]
  · intro address hlen
    exact OutputNode.map_outline_at?_truncate hlen out'

/-- A condition in a sequence, cut off after one level and not cut off. -/
theorem convert_truncate_sequence :
    let condition := Tree.node (.ofName "if")
      [.node (.ofName "lvar") [.literal (.str "a")] none, .literal .nil] none
    let place := MetaData.ofLocation "f if a" none
    (3 : UInt64) ≤ 7 ∧ ∃ out out' : OutputNode,
      out = ⟨.ofName "begin", place, .fields
        [("body", .list [.node (OutputNode.stub (.ofName "if") place)])]⟩ ∧
      out' = ⟨.ofName "begin", place, .fields [("body", .list [.node ⟨.ofName "if", place, .fields
        [("condition", .node ⟨.ofName "lvar", place, .fields [("value", .literal (.str "a"))]⟩),
          ("then_branch", .literal .nil)]⟩])]⟩ ∧
      (Tree.convert ⟨"f if a", none, 3⟩ 2 (.node (.ofName "begin") [condition] none)).1 = some out ∧
      (Tree.convert ⟨"f if a", none, 7⟩ 2 (.node (.ofName "begin") [condition] none)).1 = some out' ∧
      out = out'.truncate 1 ∧
      (∀ address, address.length = 1 →
        out.at? address = (out'.at? address).map fun node => .stub node.kind node.metaData) ∧
      ∀ address, address.length < 1 →
        (out.at? address).map OutputNode.outline = (out'.at? address).map OutputNode.outline := by
  intro condition place
  have hle : (3 : UInt64) ≤ 7 := by decide
  obtain ⟨out, out', hout, hout', htruncate⟩ :=
    convert_truncate "f if a" none 2 hle (.ofName "begin") [condition] none
  refine ⟨hle, out, out', ?_, ?_, hout, hout', htruncate⟩
  · exact Option.some.inj (hout.symm.trans rfl)
  · exact Option.some.inj (hout'.symm.trans rfl)

end NamedTree
