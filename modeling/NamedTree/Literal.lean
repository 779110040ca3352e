/-! # Literals

A child of a syntax node that is not a node itself is a literal: a name, a number, a string, `nil`
or a list of literals. Literals are never interpreted. The only question asked of one is whether it
is *truthy*, which decides if an optional field is written. -/

namespace NamedTree

/-- A child that is not a node. Integers up to the signed 64-bit maximum are `int`; `uint` is for
the ones above it. -/
inductive Literal where
  | nil
  | bool (value : Bool)
  | int (value : Int64)
  | uint (value : UInt64)
  | float (value : Float)
  | str (value : String)
  | list (items : List Literal)

namespace Literal

/-- Induction on literals: what holds of the items of a list may be used for the list. -/
@[elab_as_elim, induction_eliminator]
theorem induction {motive : Literal → Prop} (nil : motive .nil) (bool : ∀ b, motive (.bool b))
    (int : ∀ n, motive (.int n)) (uint : ∀ n, motive (.uint n)) (float : ∀ x, motive (.float x))
    (str : ∀ s, motive (.str s))
    (list : ∀ items, (∀ item ∈ items, motive item) → motive (.list items)) : ∀ l, motive l
  | .nil => nil
  | .bool b => bool b
  | .int n => int n
  | .uint n => uint n
  | .float x => float x
  | .str s => str s
  | .list items => list items fun item _ => induction nil bool int uint float str list item

/-- Everything but `nil` and `false` is truthy. -/
def truthy : Literal → Bool
  | .nil => false
  | .bool value => value
  | _ => true

/-- An unsigned integer is a signed one whenever it fits. -/
def ofUInt64 (value : UInt64) : Literal :=
  if value.toNat < 0x8000000000000000 then .int (Int64.ofNat value.toNat) else .uint value

/-- The name of the literal's form. -/
def form : Literal → String
  | .nil => "Nil"
  | .bool _ => "Bool"
  | .int _ => "Int"
  | .uint _ => "UInt"
  | .float _ => "Float"
  | .str _ => "Str"
  | .list _ => "List"

end Literal

end NamedTree
