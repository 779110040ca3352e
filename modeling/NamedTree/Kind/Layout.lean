import NamedTree.Literal

/-! # Layouts

A layout says under which names the positional children of a node appear in the output. Most kinds
have a fixed number of `slots`, child by child; the others gather a part of the children, of any
length, in one list.

* `slots`: child `i` fills slot `i`, a missing child reads as `nil`, surplus children are dropped;
  an `optional` slot is left out when its child is not present;
* `everything`: one list of all children;
* `leading`: some required children, then the list of the others;
* `dispatch`: the first child, the list of those between the first and the last, and the last one
  under `else_clause` if there are at least two and it is present;
* `initAndLast`: the list of all children but the last, then the last;
* `whenPresent`: the list of all children, provided that the first one is present;
* `constants`: fixed literals, whatever the children;
* `children`: no names at all, the children are kept as they are. -/

namespace NamedTree

/-- A named place for one positional child. -/
structure Slot where
  name : String
  optional : Bool := false
deriving DecidableEq

/-- How the positional children of a node are named. -/
inductive Layout where
  | slots (places : List Slot)
  | everything (name : String)
  | leading (names : List String) (others : String)
  | dispatch (head middle : String)
  | initAndLast (initial last : String)
  | whenPresent (name : String)
  | constants (entries : List (String × Literal))
  | children

namespace Layout

/-- Slots that are all required. -/
def required (names : List String) : Layout :=
  .slots (names.map fun name => ⟨name, false⟩)

/-- Required slots followed by one optional slot. -/
def requiredThenOptional (names : List String) (last : String) : Layout :=
  .slots (names.map (fun name => ⟨name, false⟩) ++ [⟨last, true⟩])

/-- The field of a dispatch that holds its last branch. -/
def elseClause : String := "else_clause"

end Layout

end NamedTree
