import NamedTree.Classify
import Mathlib.Data.List.Basic

/-! # The nodes of an output document

The nodes directly below an output node (`OutputNode.below`) stand in its fields or in its list of
children, perhaps inside a list that the layout gathered; they are taken in document order. An
*address* names a node of a document by the number of the node to go to at each step down, so the
node at the address `p` lies `p.length` steps below the root (`OutputNode.at?`). In the
lexicographic order of addresses a node comes before all nodes below it, and otherwise the one that
the document has first comes first.

A layout keeps the order of the children, repeats none and makes up nothing but its own literals, so
whatever the places of a body contain is a sublist of what the children contain
(`Layout.contents_apply_sublist`), the nodes for example (`Layout.nodes_apply_sublist`). -/

namespace NamedTree

namespace Converted

mutual
/-- The output nodes that stand in a place, looking through lists. -/
def nodes : Converted → List OutputNode
  | .node output => [output]
  | .literal _ => []
  | .list items => allNodes items

/-- The output nodes that stand in a list of places. -/
def allNodes : List Converted → List OutputNode
  | [] => []
  | c :: cs => nodes c ++ allNodes cs
end

theorem allNodes_eq_flatMap (cs : List Converted) : allNodes cs = cs.flatMap nodes := by
  induction cs with
  | nil => rw [allNodes, List.flatMap_nil]
  | cons c cs ih => rw [allNodes, ih, List.flatMap_cons]

@[simp] theorem nodes_node (output : OutputNode) : nodes (.node output) = [output] := by
  rw [nodes]

@[simp] theorem nodes_literal (value : Literal) : nodes (.literal value) = [] := by
  rw [nodes]

@[simp] theorem nodes_list (cs : List Converted) : nodes (.list cs) = cs.flatMap nodes := by
  rw [nodes, allNodes_eq_flatMap]

@[simp] theorem nodes_absent : nodes absent = [] := nodes_literal _

theorem eq_node_of_asNode {c : Converted} {out : OutputNode} (h : c.asNode = some out) :
    c = .node out := by
  cases c with
  | node output => rw [Option.some.inj h]
  | literal value => cases h
  | list items => cases h

end Converted

/-- What stands in the places of a body, in document order. -/
def Body.places : Body α → List α
  | .fields entries => entries.map (·.2)
  | .children items => items
  | .nested => []

/-- The nodes of a body. -/
def Body.nodes (body : Body Converted) : List OutputNode := body.places.flatMap Converted.nodes

namespace OutputNode

/-- The nodes directly below a node, in document order. -/
def below (node : OutputNode) : List OutputNode := node.body.nodes

/-- The node at an address. -/
def at? : OutputNode → List ℕ → Option OutputNode
  | node, [] => some node
  | node, index :: address => node.below[index]?.bind (at? · address)

theorem isNested_iff {node : OutputNode} : node.isNested = true ↔ node.body = .nested := by
  unfold isNested
  cases node.body <;> simp

end OutputNode

/-! ### What a layout does to the contents of the children -/

open Converted

/-- The literals that a layout writes whatever the children. -/
def Layout.literals : Layout → List Literal
  | .constants entries => entries.map (·.2)
  | _ => []

section Contents
variable {β : Type} {content : Converted → List β}
  (hlist : ∀ cs, content (.list cs) = cs.flatMap content) (habsent : content absent = [])

/-- The contents of a body, place by place. -/
def Body.contents (content : Converted → List β) (body : Body Converted) : List β :=
  body.places.flatMap content

/-- The contents of fields, one by one. -/
def fieldContents (content : Converted → List β) (entries : List (String × Converted)) : List β :=
  (entries.map (·.2)).flatMap content

@[simp] theorem contents_fields (entries : List (String × Converted)) :
    (Body.fields entries).contents content = fieldContents content entries := rfl

@[simp] theorem fieldContents_nil : fieldContents content [] = [] := rfl

@[simp] theorem fieldContents_cons (entry : String × Converted)
    (entries : List (String × Converted)) :
    fieldContents content (entry :: entries) =
      content entry.2 ++ fieldContents content entries := by
  simp [fieldContents]

@[simp] theorem fieldContents_append (before after : List (String × Converted)) :
    fieldContents content (before ++ after) =
      fieldContents content before ++ fieldContents content after := by
  simp [fieldContents]

variable (content) in
theorem Slot.fieldContents_entry_sublist (slot : Slot) (c : Converted) :
    (fieldContents content (slot.entry c)).Sublist (content c) := by
  unfold entry
  split_ifs
  · simp
  · simp

namespace Layout

include habsent in
theorem fieldContents_fill_sublist (places : List Slot) (cs : List Converted) :
    (fieldContents content (fill places cs)).Sublist ((cs.take places.length).flatMap content) := by
  fun_induction fill places cs with
  | case1 cs => simp
  | case2 place places ih =>
    have hentry := place.fieldContents_entry_sublist content absent
    simpa [habsent] using hentry.append ih
  | case3 place places c cs ih =>
    have hentry := place.fieldContents_entry_sublist content c
    simpa using hentry.append ih

/-- The contents of the first children and those of the others. -/
theorem flatMap_take_append_drop (n : ℕ) (cs : List Converted) :
    (cs.take n).flatMap content ++ (cs.drop n).flatMap content = cs.flatMap content := by
  rw [← List.flatMap_append, List.take_append_drop]

include habsent in
/-- The contents of the first child and those of the others. -/
theorem headD_append_flatMap_tail (cs : List Converted) :
    content (cs.headD absent) ++ cs.tail.flatMap content = cs.flatMap content := by
  cases cs <;> simp [habsent]

include habsent in
/-- The contents of all children but the last and those of the last. -/
theorem flatMap_dropLast_append (cs : List Converted) :
    cs.dropLast.flatMap content ++ content (cs.getLast?.getD absent) = cs.flatMap content := by
  rcases List.eq_nil_or_concat cs with rfl | ⟨cs, c, rfl⟩ <;> simp [habsent]

include hlist habsent in
/-- **A layout keeps a part of the contents of the children, in their order.** -/
theorem contents_apply_sublist (layout : Layout)
    (hliteral : ∀ value ∈ layout.literals, content (.literal value) = []) (cs : List Converted) :
    ((layout.apply cs).contents content).Sublist (cs.flatMap content) := by
  cases layout with
  | slots places =>
    rw [← flatMap_take_append_drop places.length cs]
    exact (fieldContents_fill_sublist habsent places cs).trans (List.sublist_append_left _ _)
  | everything name => simp [apply, hlist]
  | leading names others =>
    have hfill := fieldContents_fill_sublist habsent (names.map fun name => ⟨name, false⟩) cs
    rw [List.length_map] at hfill
    rw [← flatMap_take_append_drop names.length cs]
    simpa [apply, hlist] using hfill
  | dispatch head middle =>
    have helse := Slot.fieldContents_entry_sublist content ⟨elseClause, true⟩
      (cs.tail.getLast?.getD absent)
    rw [← headD_append_flatMap_tail habsent, ← flatMap_dropLast_append habsent cs.tail]
    simpa [apply, hlist] using helse
  | initAndLast initial last => simp [apply, hlist, flatMap_dropLast_append habsent]
  | whenPresent name =>
    simp only [apply]
    split_ifs <;> simp [hlist]
  | constants entries =>
    have hentries : ((constants entries).apply cs).contents content = [] := by
      simp only [apply, contents_fields, fieldContents, List.flatMap_eq_nil_iff, List.map_map,
        List.mem_map]
      rintro _ ⟨entry, hentry, rfl⟩
      exact hliteral entry.2 (List.mem_map_of_mem hentry)
    rw [hentries]
    exact List.nil_sublist _
  | children => exact List.Sublist.refl _

/-- **A layout keeps a part of the nodes among the children, in their order.** -/
theorem nodes_apply_sublist (layout : Layout) (cs : List Converted) :
    (layout.apply cs).nodes.Sublist (cs.flatMap nodes) :=
  contents_apply_sublist nodes_list nodes_absent layout (fun value _ => nodes_literal value) cs

/-- No layout makes a stub. -/
theorem apply_ne_nested (layout : Layout) (cs : List Converted) : layout.apply cs ≠ .nested := by
  cases layout <;> simp [apply]

end Layout

end Contents

end NamedTree
