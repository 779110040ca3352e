import NamedTree.Proofs.Output.Nodes

/-! # Truncating documents

`OutputNode.truncate left` replaces every node that lies `left` levels below the root by a stub with
its own kind and meta data, and changes nothing else. One level leads from a node to the nodes below
it (`OutputNode.below`), so a list that a layout gathered is no level of its own.

* `at?_truncate`: the nodes of the truncated document are the nodes of the document at the same
  addresses, up to `left` steps below the root, each truncated by what is left of the levels;
* `truncate_truncate`: of two truncations the shorter one counts.

`OutputNode.outline` is what a node shows without the nodes below it: its kind, its meta data, its
keys, its lists and its literals. -/

namespace NamedTree

/-- Changes what stands in the places of a body. -/
def Body.map (f : α → β) : Body α → Body β
  | .fields entries => .fields (entries.map fun (name, c) => (name, f c))
  | .children items => .children (items.map f)
  | .nested => .nested

mutual
/-- What stands in a place, truncated so many levels below it. -/
def Converted.truncate : ℕ → Converted → Converted
  | left, .node output => .node (OutputNode.truncate left output)
  | _, .literal value => .literal value
  | left, .list items => .list (Converted.truncateAll left items)

/-- A document whose nodes so many levels below the root are stubs. -/
def OutputNode.truncate : ℕ → OutputNode → OutputNode
  | 0, ⟨kind, metaData, _⟩ => OutputNode.stub kind metaData
  | left + 1, ⟨kind, metaData, .fields entries⟩ =>
    ⟨kind, metaData, .fields (Converted.truncateEntries left entries)⟩
  | left + 1, ⟨kind, metaData, .children items⟩ =>
    ⟨kind, metaData, .children (Converted.truncateAll left items)⟩
  | _ + 1, ⟨kind, metaData, .nested⟩ => ⟨kind, metaData, .nested⟩

/-- Truncates what stands in a list of places. -/
def Converted.truncateAll : ℕ → List Converted → List Converted
  | _, [] => []
  | left, c :: cs => Converted.truncate left c :: Converted.truncateAll left cs

/-- Truncates what stands in named fields. -/
def Converted.truncateEntries : ℕ → List (String × Converted) → List (String × Converted)
  | _, [] => []
  | left, (name, c) :: entries =>
    (name, Converted.truncate left c) :: Converted.truncateEntries left entries
end

/-- What a node shows without the nodes below it, each of which is reduced to a stub. -/
def OutputNode.outline (node : OutputNode) : OutputNode := node.truncate 1

namespace Converted

/-- Induction on what stands in a place: what holds of the places of a node or of the items of a
list may be used for the node or the list. -/
@[elab_as_elim]
theorem induction {motive : Converted → Prop}
    (node : ∀ output : OutputNode, (∀ c ∈ output.body.places, motive c) → motive (.node output))
    (literal : ∀ value, motive (.literal value))
    (list : ∀ items, (∀ c ∈ items, motive c) → motive (.list items)) : ∀ c, motive c
  | .node ⟨kind, metaData, .fields entries⟩ => node _ fun c hc => by
    obtain ⟨entry, hentry, rfl⟩ := List.mem_map.mp hc
    exact induction node literal list entry.2
  | .node ⟨kind, metaData, .children items⟩ => node _ fun c _ => induction node literal list c
  | .node ⟨kind, metaData, .nested⟩ => node _ fun c hc => by cases hc
  | .literal value => literal value
  | .list items => list items fun c _ => induction node literal list c
decreasing_by
  · have := List.sizeOf_lt_of_mem hentry
    cases entry
    simp_all
    omega
  · have := List.sizeOf_lt_of_mem ‹_ ∈ items›
    simp
    omega
  · have := List.sizeOf_lt_of_mem ‹_ ∈ items›
    simp
    omega

theorem truncateAll_eq_map (left : ℕ) (cs : List Converted) :
    truncateAll left cs = cs.map (truncate left) := by
  induction cs with
  | nil => rw [truncateAll, List.map_nil]
  | cons c cs ih => rw [truncateAll, ih, List.map_cons]

theorem truncateEntries_eq_map (left : ℕ) (entries : List (String × Converted)) :
    truncateEntries left entries = entries.map fun (name, c) => (name, truncate left c) := by
  induction entries with
  | nil => rw [truncateEntries, List.map_nil]
  | cons entry entries ih => rw [truncateEntries, ih, List.map_cons]

@[simp] theorem truncate_node (left : ℕ) (output : OutputNode) :
    truncate left (.node output) = .node (output.truncate left) := by
  rw [truncate]

@[simp] theorem truncate_literal (left : ℕ) (value : Literal) :
    truncate left (.literal value) = .literal value := by
  rw [truncate]

@[simp] theorem truncate_list (left : ℕ) (items : List Converted) :
    truncate left (.list items) = .list (items.map (truncate left)) := by
  rw [truncate, truncateAll_eq_map]

end Converted

namespace OutputNode

@[simp] theorem truncate_zero (node : OutputNode) :
    node.truncate 0 = stub node.kind node.metaData := by
  rw [truncate]

theorem truncate_succ (left : ℕ) (node : OutputNode) :
    node.truncate (left + 1) =
      ⟨node.kind, node.metaData, node.body.map (Converted.truncate left)⟩ := by
  obtain ⟨kind, metaData, body⟩ := node
  cases body with
  | fields entries => rw [truncate, Converted.truncateEntries_eq_map]; rfl
  | children items => rw [truncate, Converted.truncateAll_eq_map]; rfl
  | nested => rw [truncate]; rfl

@[simp] theorem kind_truncate (left : ℕ) (node : OutputNode) :
    (node.truncate left).kind = node.kind := by
  cases left with
  | zero => rw [truncate_zero]; rfl
  | succ left => rw [truncate_succ]

@[simp] theorem metaData_truncate (left : ℕ) (node : OutputNode) :
    (node.truncate left).metaData = node.metaData := by
  cases left with
  | zero => rw [truncate_zero]; rfl
  | succ left => rw [truncate_succ]

end OutputNode

/-! ### Truncating twice -/

theorem Body.map_map (g : β → γ) (f : α → β) (body : Body α) :
    (body.map f).map g = body.map (g ∘ f) := by
  cases body <;> simp [map, Function.comp_def]

theorem Body.map_congr {f g : α → β} {body : Body α} (h : ∀ c ∈ body.places, f c = g c) :
    body.map f = body.map g := by
  cases body with
  | fields entries =>
    simp only [map, fields.injEq, List.map_inj_left, Prod.mk.injEq, true_and]
    intro entry hentry
    exact h entry.2 (List.mem_map_of_mem hentry)
  | children items => exact congrArg children (List.map_congr_left h)
  | nested => rfl

/-- **Of two truncations the shorter one counts.** -/
theorem Converted.truncate_truncate (left left' : ℕ) (c : Converted) :
    (c.truncate left').truncate left = c.truncate (min left left') := by
  induction c using Converted.induction generalizing left left' with
  | node output ih =>
    rw [truncate_node, truncate_node, truncate_node]
    congr 1
    cases left with
    | zero => simp
    | succ left =>
      cases left' with
      | zero => simp [OutputNode.truncate_succ, OutputNode.stub, Body.map]
      | succ left' =>
        have hmin : min (left + 1) (left' + 1) = min left left' + 1 := by omega
        have hbody : (output.body.map (truncate left')).map (truncate left) =
            output.body.map (truncate (min left left')) := by
          rw [Body.map_map]
          exact Body.map_congr fun c hc => ih c hc left left'
        rw [hmin, OutputNode.truncate_succ, OutputNode.truncate_succ, OutputNode.truncate_succ,
          hbody]
  | literal value => simp
  | list items ih => simpa using fun c hc => ih c hc left left'

theorem OutputNode.truncate_truncate (left left' : ℕ) (node : OutputNode) :
    (node.truncate left').truncate left = node.truncate (min left left') := by
  have h := Converted.truncate_truncate left left' (.node node)
  simpa using h

/-! ### The nodes of a truncated document -/

theorem Converted.nodes_truncate (left : ℕ) (c : Converted) :
    (c.truncate left).nodes = c.nodes.map (OutputNode.truncate left) := by
  induction c using Converted.induction with
  | node output ih => simp
  | literal value => simp
  | list items ih =>
    simp only [truncate_list, nodes_list, List.flatMap_map, List.map_flatMap]
    exact List.flatMap_congr ih

theorem Body.places_map (f : α → β) (body : Body α) : (body.map f).places = body.places.map f := by
  cases body <;> simp [map, places]

namespace OutputNode

theorem below_truncate_succ (left : ℕ) (node : OutputNode) :
    (node.truncate (left + 1)).below = node.below.map (truncate left) := by
  rw [truncate_succ, below, below, Body.nodes, Body.nodes, Body.places_map, List.flatMap_map,
    List.map_flatMap]
  exact List.flatMap_congr fun c _ => c.nodes_truncate left

/-- **The nodes of a truncated document.** -/
theorem at?_truncate (left : ℕ) (node : OutputNode) (address : List ℕ) :
    (node.truncate left).at? address =
      if address.length ≤ left then (node.at? address).map (truncate (left - address.length))
      else none := by
  induction address generalizing left node with
  | nil => simp [at?]
  | cons index address ih =>
    cases left with
    | zero => simp [at?, truncate_zero, stub, below, Body.nodes, Body.places]
    | succ left =>
      have hlen : (index :: address).length ≤ left + 1 ↔ address.length ≤ left := by simp
      have hsub : left + 1 - (index :: address).length = left - address.length := by simp
      rw [at?, at?, below_truncate_succ, List.getElem?_map, hsub]
      cases node.below[index]? with
      | none => simp
      | some child => simp only [Option.map_some, Option.bind_some, ih, hlen]

/-- Above the cut the nodes of a truncated document look like those of the document. -/
theorem map_outline_at?_truncate {left : ℕ} {address : List ℕ} (h : address.length < left)
    (node : OutputNode) :
    ((node.truncate left).at? address).map outline = (node.at? address).map outline := by
  have hmin : min 1 (left - address.length) = 1 := by omega
  have houtline : outline ∘ truncate (left - address.length) = outline := by
    funext child
    rw [Function.comp_apply, outline, outline, truncate_truncate, hmin]
  rw [at?_truncate, if_pos (Nat.le_of_lt h), Option.map_map, houtline]

end OutputNode

end NamedTree
