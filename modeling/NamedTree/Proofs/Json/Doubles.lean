import NamedTree.Tree.Codec

/-! # The doubles of a value

`doubles` lists the doubles that stand in a value, a literal or a tree. A value of a JSON text has
finite doubles only, and a double is the one thing that is not written the way it is held: one that
is not finite becomes null. Writing makes up no double (`Literal.doubles_toJson_sublist`). -/

namespace NamedTree

namespace Json

mutual
/-- The doubles in a value, in order. -/
def doubles : Json → List Float
  | .float x => [x]
  | .arr items => itemDoubles items
  | .obj entries => entryDoubles entries
  | .null | .bool _ | .int _ | .str _ => []

/-- The doubles in a list of values. -/
def itemDoubles : List Json → List Float
  | [] => []
  | item :: items => doubles item ++ itemDoubles items

/-- The doubles in the entries of an object. -/
def entryDoubles : List (String × Json) → List Float
  | [] => []
  | (_, v) :: entries => doubles v ++ entryDoubles entries
end

theorem doubles_arr (items : List Json) : doubles (.arr items) = items.flatMap doubles := by
  rw [doubles]
  induction items with
  | nil => rw [itemDoubles, List.flatMap_nil]
  | cons item items ih => rw [itemDoubles, ih, List.flatMap_cons]

theorem doubles_obj (entries : List (String × Json)) :
    doubles (.obj entries) = entries.flatMap fun entry => doubles entry.2 := by
  rw [doubles]
  induction entries with
  | nil => rw [entryDoubles, List.flatMap_nil]
  | cons entry entries ih => rw [entryDoubles, ih, List.flatMap_cons]

end Json

namespace Literal

mutual
/-- The doubles in a literal, in order. -/
def doubles : Literal → List Float
  | .float x => [x]
  | .list items => itemDoubles items
  | .nil | .bool _ | .int _ | .uint _ | .str _ => []

/-- The doubles in a list of literals. -/
def itemDoubles : List Literal → List Float
  | [] => []
  | item :: items => doubles item ++ itemDoubles items
end

mutual
/-- The doubles that are written are doubles of the literal. -/
theorem doubles_toJson_sublist : ∀ l : Literal, l.toJson.doubles.Sublist l.doubles
  | .nil | .bool _ | .int _ | .uint _ | .str _ => by
    simp [toJson, Json.ofInt64, Json.ofUInt64, Json.doubles]
  | .float x => by
    rw [toJson, Json.ofFloat, doubles]
    split <;> simp [Json.doubles]
  | .list items => by
    rw [toJson, Json.doubles, doubles]
    exact itemDoubles_toJsons_sublist items

theorem itemDoubles_toJsons_sublist : ∀ items : List Literal,
    (Json.itemDoubles (toJsons items)).Sublist (itemDoubles items)
  | [] => by
    rw [toJsons, Json.itemDoubles]
    exact List.nil_sublist _
  | item :: items => by
    rw [toJsons, Json.itemDoubles, itemDoubles]
    exact (doubles_toJson_sublist item).append (itemDoubles_toJsons_sublist items)
end

end Literal

namespace Tree

mutual
/-- The doubles in a tree, in order. -/
def doubles : Tree → List Float
  | .node _ children _ => childDoubles children
  | .literal value => value.doubles

/-- The doubles in trees that stand side by side. -/
def childDoubles : List Tree → List Float
  | [] => []
  | tree :: trees => doubles tree ++ childDoubles trees
end

theorem doubles_node (kind : Kind) (children : List Tree) (location : Option Location) :
    doubles (.node kind children location) = children.flatMap doubles := by
  rw [doubles]
  induction children with
  | nil => rw [childDoubles, List.flatMap_nil]
  | cons tree trees ih => rw [childDoubles, ih, List.flatMap_cons]

end Tree

end NamedTree
