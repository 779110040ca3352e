import NamedTree.Render
import NamedTree.Proofs.Convert.Levels
import NamedTree.Proofs.Json.Spacing
import NamedTree.Proofs.Output.Nodes
import Mathlib.Data.List.Flatten

/-! # Documents are read back

Both JSON texts of a result are read back to the value of the result (`read_render`), provided that
the tree it comes from has no doubles. The document has none either (`Tree.doubles_levels_sublist`):
what a layout writes comes from the children or is one of its own literals, and those are words
(`Kind.doubles_eq_nil_of_mem_literals`). -/

namespace NamedTree

/-! ### Documents as values -/

/-- The entries that a body adds to those of every node. -/
def Body.entries (write : α → Json) : Body α → List (String × Json)
  | .fields entries => entries.map fun (name, c) => (name, write c)
  | .children items => [("children", .arr (items.map write))]
  | .nested => [("nested", .bool true)]

namespace Converted

theorem toJsons_eq_map (items : List Converted) : toJsons items = items.map toJson := by
  induction items with
  | nil => rw [toJsons, List.map_nil]
  | cons item items ih => rw [toJsons, ih, List.map_cons]

theorem toEntries_eq_map (entries : List (String × Converted)) :
    toEntries entries = entries.map fun (name, c) => (name, toJson c) := by
  induction entries with
  | nil => rw [toEntries, List.map_nil]
  | cons entry entries ih => rw [toEntries, ih, List.map_cons]

end Converted

theorem OutputNode.toJson_eq (node : OutputNode) :
    toJson node = .obj (node.header ++ node.body.entries Converted.toJson) := by
  obtain ⟨kind, metaData, body⟩ := node
  cases body with
  | fields entries => rw [toJson, Converted.toEntries_eq_map]; rfl
  | children items => rw [toJson, Converted.toJsons_eq_map]; rfl
  | nested => rw [toJson]; rfl

/-! ### The doubles of a document -/

theorem MetaData.doubles_toJson (m : MetaData) : m.toJson.doubles = [] := by
  obtain ⟨_, _, _, _, offsetStart, offsetEnd, code⟩ := m
  rw [toJson, Json.doubles_obj]
  cases offsetStart <;> cases offsetEnd <;> cases code <;>
    simp [Json.ofInt64, Json.ofUInt64, Json.ofOption, Json.doubles]

namespace Converted

/-- The doubles that are written for what stands in a place. -/
def doubles (c : Converted) : List Float := c.toJson.doubles

theorem doubles_list (cs : List Converted) : doubles (.list cs) = cs.flatMap doubles := by
  rw [doubles, toJson, Json.doubles_arr, toJsons_eq_map, List.flatMap_map]
  rfl

theorem doubles_absent : doubles absent = [] := by
  simp [doubles, absent, toJson, Literal.toJson, Json.doubles]

theorem doubles_node (output : OutputNode) :
    doubles (.node output) = output.body.contents doubles := by
  have hheader : output.header.flatMap (fun entry => entry.2.doubles) = [] := by
    simp [NodeOf.header, Json.doubles, MetaData.doubles_toJson]
  rw [doubles, toJson, OutputNode.toJson_eq, Json.doubles_obj, List.flatMap_append, hheader,
    List.nil_append, Body.contents]
  cases output.body with
  | fields entries =>
    simp only [Body.entries, Body.places, List.flatMap_map]
    rfl
  | children items =>
    simp only [Body.entries, Body.places, List.flatMap_singleton, Json.doubles_arr,
      List.flatMap_map]
    rfl
  | nested => simp [Body.entries, Body.places, Json.doubles]

end Converted

theorem Kind.doubles_eq_nil_of_mem_literals (kind : Kind) :
    ∀ value ∈ kind.layout.literals, value.doubles = [] := by
  have htable : ∀ row ∈ Row.table, ∀ value ∈ row.layout.literals, value.doubles = [] := by
    decide +kernel
  cases kind with
  | known row => exact htable _ (List.get_mem _ row)
  | unknown name => simp [layout, Layout.literals]

/-- **A document has no doubles but those of its tree.** -/
theorem Tree.doubles_levels_sublist (source : String) (left : ℕ) (tree : Tree) :
    (tree.levels source left).doubles.Sublist tree.doubles := by
  induction tree generalizing left with
  | literal value =>
    rw [levels_literal, Converted.doubles, Converted.toJson, doubles]
    exact value.doubles_toJson_sublist
  | node kind children location ih =>
    cases left with
    | zero =>
      rw [levels_zero_node, Converted.doubles_node]
      exact List.nil_sublist _
    | succ left =>
      have hliteral : ∀ value ∈ kind.layout.literals, Converted.doubles (.literal value) = [] := by
        intro value hvalue
        have hwritten := value.doubles_toJson_sublist
        rw [kind.doubles_eq_nil_of_mem_literals value hvalue] at hwritten
        rw [Converted.doubles, Converted.toJson]
        exact List.sublist_nil.mp hwritten
      have hbody := Layout.contents_apply_sublist Converted.doubles_list Converted.doubles_absent
        kind.layout hliteral (children.map (levels source left))
      rw [List.flatMap_map] at hbody
      rw [levels_succ_node, Converted.doubles_node, doubles_node]
      exact hbody.trans (List.Sublist.flatMap_right _ fun child hchild => ih child hchild left)

/-! ### Rendering and reading -/

theorem doubles_convert {ctx : Context} {depth : UInt64} {tree : Tree} {out : OutputNode}
    (hdoubles : tree.doubles = []) (h : (tree.convert ctx depth).1 = some out) :
    (OutputNode.toJson out).doubles = [] := by
  have hsublist := tree.doubles_levels_sublist ctx.source (ctx.maxDepth.toNat - depth.toNat)
  rw [← convertTree_fst, hdoubles] at hsublist
  cases hconverted : (convertTree ctx depth tree).1 with
  | node output =>
    obtain rfl : output = out := by simpa [Tree.convert, hconverted, Converted.asNode] using h
    rw [hconverted, Converted.doubles, Converted.toJson] at hsublist
    exact List.sublist_nil.mp hsublist
  | literal value => simp [Tree.convert, hconverted, Converted.asNode] at h
  | list items => simp [Tree.convert, hconverted, Converted.asNode] at h

/-- **Both JSON texts of a result are read back to the value of the result.** The result is missing,
or it is the document of a tree without doubles. -/
theorem read_render {result : Option OutputNode}
    (h : result = none ∨ ∃ (ctx : Context) (depth : UInt64) (tree : Tree),
      tree.doubles = [] ∧ (tree.convert ctx depth).1 = result)
    (pretty : Bool) (limit : UInt64) :
    Json.read (Settings.render ⟨.json, pretty, limit⟩ result) =
      .ok (Json.ofOption OutputNode.toJson result) := by
  have hdoubles : (Json.ofOption OutputNode.toJson result).doubles = [] := by
    cases result with
    | none => rw [Json.ofOption, Json.doubles]
    | some out =>
      obtain h | ⟨ctx, depth, tree, htree, hconvert⟩ := h
      · cases h
      · exact doubles_convert htree hconvert
  cases pretty with
  | false => exact Json.read_toCompact _ hdoubles
  | true => exact Json.read_toPretty _ hdoubles

/-- A call with a name that needs escapes, the greatest and the least integer, and an empty list. -/
theorem read_render_call : ∃ tree v,
    tree = Tree.node (.ofName "send") [.literal .nil, .literal (.str "\"\\\t\x7f😀"),
      .literal (.uint 18446744073709551615),
      .literal (.list [.int (-9223372036854775808), .list []])] none ∧
    v = Json.obj [("type", .str "send"),
      ("meta_data", .obj [("start_line", .ofInt64 (-1)), ("start_column", .ofInt64 (-1)),
        ("end_line", .ofInt64 (-1)), ("end_column", .ofInt64 (-1)), ("offset_start", .null),
        ("offset_end", .null), ("code", .null)]),
      ("receiver", .null), ("name", .str "\"\\\t\x7f😀"),
      ("arguments", .arr [.ofUInt64 18446744073709551615,
        .arr [.ofInt64 (-9223372036854775808), .arr []]])] ∧
    tree.doubles = [] ∧
    Json.read (Settings.render ⟨.json, false, 100⟩ (tree.convert {} 0).1) = .ok v ∧
    Json.read (Settings.render ⟨.json, true, 100⟩ (tree.convert {} 0).1) = .ok v := by
  refine ⟨_, _, rfl, rfl, ?doubles, read_render (Or.inr ⟨{}, 0, _, ?doubles, rfl⟩) false 100,
    read_render (Or.inr ⟨{}, 0, _, ?doubles, rfl⟩) true 100⟩
  rfl

end NamedTree
