import NamedTree.Json
import NamedTree.Tree

/-! # Trees as JSON values

`Tree.toJson` writes a tree as a value and `Tree.ofJson?` reads one. Reading is more liberal than
writing: a node, a location and a range may each be an object, in which unknown keys are ignored and
no known key may be repeated, or a list of the same parts in order. What is not a node is a literal,
and a literal holds no object at any depth. -/

namespace NamedTree

namespace Literal

mutual
/-- A literal as a value. -/
def toJson : Literal → Json
  | .nil => .null
  | .bool b => .bool b
  | .int n => .ofInt64 n
  | .uint n => .ofUInt64 n
  | .float x => .ofFloat x
  | .str s => .str s
  | .list items => .arr (toJsons items)

/-- A list of literals as values. -/
def toJsons : List Literal → List Json
  | [] => []
  | item :: items => toJson item :: toJsons items
end

/-- A whole number is signed whenever it fits. -/
def ofInteger (n : Json.Integer) : Literal :=
  if n.val < 0x8000000000000000 then .int (Int64.ofInt n.val) else .uint (UInt64.ofNat n.val.toNat)

mutual
/-- The literal of a value, which must not hold an object. -/
def ofJson? : Json → Option Literal
  | .null => some .nil
  | .bool b => some (.bool b)
  | .int n => some (ofInteger n)
  | .float x => some (.float x)
  | .str s => some (.str s)
  | .arr items => (ofJsons? items).map .list
  | .obj _ => none

/-- The literals of a list of values, none of which may hold an object. -/
def ofJsons? : List Json → Option (List Literal)
  | [] => some []
  | item :: items =>
    match ofJson? item, ofJsons? items with
    | some first, some others => some (first :: others)
    | _, _ => none
end

end Literal

/-- The part of an object under a key that must occur once. -/
def Json.required? (read : Json → Option α) (key : String) (entries : List (String × Json)) :
    Option α :=
  match occurrences key entries with
  | [v] => read v
  | _ => none

/-- The part of an object under a key that may be missing or null but must not be repeated. -/
def Json.optional? (read : Json → Option α) (key : String) (entries : List (String × Json)) :
    Option (Option α) :=
  match occurrences key entries with
  | [] => some none
  | [.null] => some none
  | [v] => (read v).map some
  | _ => none

/-- The item of a list that may be missing or null. -/
def Json.item? (read : Json → Option α) (items : List Json) (index : Nat) : Option (Option α) :=
  match items[index]? with
  | none => some none
  | some .null => some none
  | some v => (read v).map some

/-- A signed 64-bit whole number. -/
def Json.int64? : Json → Option Int64
  | .int n => n.toInt64?
  | _ => none

/-- An unsigned 64-bit whole number. -/
def Json.uint64? : Json → Option UInt64
  | .int n => n.toUInt64?
  | _ => none

namespace Range

/-- A range as a value. -/
def toJson (range : Range) : Json :=
  .obj [("begin_pos", .ofUInt64 range.first), ("end_pos", .ofUInt64 range.last)]

/-- The range of a value. -/
def ofJson? : Json → Option Range
  | .obj entries =>
    match Json.required? Json.uint64? "begin_pos" entries,
      Json.required? Json.uint64? "end_pos" entries with
    | some first, some last => some ⟨first, last⟩
    | _, _ => none
  | .arr [first, last] =>
    match first.uint64?, last.uint64? with
    | some first, some last => some ⟨first, last⟩
    | _, _ => none
  | _ => none

end Range

namespace Location

/-- The entry of a part that is there. -/
def part (key : String) (write : α → Json) : Option α → List (String × Json)
  | none => []
  | some a => [(key, write a)]

/-- A location as a value, which holds only the parts that are there. -/
def toJson (location : Location) : Json :=
  .obj (part "line" .ofInt64 location.line ++ part "column" .ofInt64 location.column ++
    part "last_line" .ofInt64 location.lastLine ++
    part "last_column" .ofInt64 location.lastColumn ++
    part "expression" Range.toJson location.expression)

/-- The location of a value. -/
def ofJson? : Json → Option Location
  | .obj entries => do
    let line ← Json.optional? Json.int64? "line" entries
    let column ← Json.optional? Json.int64? "column" entries
    let lastLine ← Json.optional? Json.int64? "last_line" entries
    let lastColumn ← Json.optional? Json.int64? "last_column" entries
    let expression ← Json.optional? Range.ofJson? "expression" entries
    return ⟨line, column, lastLine, lastColumn, expression⟩
  | .arr items =>
    if 5 < items.length then none
    else do
      let line ← Json.item? Json.int64? items 0
      let column ← Json.item? Json.int64? items 1
      let lastLine ← Json.item? Json.int64? items 2
      let lastColumn ← Json.item? Json.int64? items 3
      let expression ← Json.item? Range.ofJson? items 4
      return ⟨line, column, lastLine, lastColumn, expression⟩
  | _ => none

end Location

namespace Tree

mutual
/-- A tree as a value. -/
def toJson : Tree → Json
  | .node kind children location =>
    .obj ([("type", .str kind.name), ("children", .arr (toJsons children))] ++
      Location.part "location" Location.toJson location)
  | .literal value => value.toJson

/-- A list of trees as values. -/
def toJsons : List Tree → List Json
  | [] => []
  | tree :: trees => toJson tree :: toJsons trees
end

/-- The node of an object, given what each entry reads as when it is a list of children. -/
def ofEntries? (entries : List (String × Json)) (lists : List (String × Option (List Tree))) :
    Option Tree :=
  match Json.occurrences "type" entries, Json.occurrences "children" lists,
    Json.optional? Location.ofJson? "location" entries with
  | [.str name], [], some location => some (.node (.ofName name) [] location)
  | [.str name], [some children], some location => some (.node (.ofName name) children location)
  | _, _, _ => none

/-- The node of a list of its parts, given what each item reads as when it is a list of children. -/
def ofParts? (items : List Json) (lists : List (Option (List Tree))) : Option Tree :=
  match items, lists with
  | [.str name], _ => some (.node (.ofName name) [] none)
  | [.str name, _], [_, some children] => some (.node (.ofName name) children none)
  | [.str name, _, location], [_, some children, _] =>
    (Json.item? Location.ofJson? [location] 0).map fun location =>
      .node (.ofName name) children location
  | _, _ => none

mutual
/-- The tree of a value: a node if it reads as one, and otherwise a literal. -/
def ofJson? : Json → Option Tree
  | .obj entries => ofEntries? entries (entryLists? entries)
  | .arr items =>
    match ofParts? items (itemLists? items) with
    | some tree => some tree
    | none => (Literal.ofJson? (.arr items)).map .literal
  | v => (Literal.ofJson? v).map .literal

/-- The trees of a list of values. -/
def ofJsons? : List Json → Option (List Tree)
  | [] => some []
  | item :: items =>
    match ofJson? item, ofJsons? items with
    | some first, some others => some (first :: others)
    | _, _ => none

/-- The children that a value lists, if it is a list of trees. -/
def children? : Json → Option (List Tree)
  | .arr items => ofJsons? items
  | _ => none

/-- What each item reads as when it is a list of children. -/
def itemLists? : List Json → List (Option (List Tree))
  | [] => []
  | item :: items => children? item :: itemLists? items

/-- What each entry reads as when it is a list of children. -/
def entryLists? : List (String × Json) → List (String × Option (List Tree))
  | [] => []
  | (key, v) :: entries => (key, children? v) :: entryLists? entries
end

end Tree

end NamedTree
