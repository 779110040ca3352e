import NamedTree.Output

/-! # Naming the children of a node

`Layout.apply` is the classifier: it turns the converted children of a node into its body as the
layout of its kind says. It is total; every list of children has a body under every layout. -/

namespace NamedTree

/-- The entry of one slot: left out only when the slot is optional and the child not present. -/
def Slot.entry (slot : Slot) (child : Converted) : List (String × Converted) :=
  if slot.optional && !child.present then [] else [(slot.name, child)]

namespace Layout

/-- Fills places with children one by one. -/
def fill : List Slot → List Converted → List (String × Converted)
  | [], _ => []
  | place :: places, [] => place.entry .absent ++ fill places []
  | place :: places, c :: cs => place.entry c ++ fill places cs

/-- The body that a layout gives to a list of children. -/
def apply : Layout → List Converted → Body Converted
  | .slots places, cs => .fields (fill places cs)
  | .everything name, cs => .fields [(name, .list cs)]
  | .leading names others, cs =>
    .fields (fill (names.map fun name => ⟨name, false⟩) cs ++
      [(others, .list (cs.drop names.length))])
  | .dispatch head middle, cs =>
    .fields ([(head, cs.headD .absent), (middle, .list cs.tail.dropLast)] ++
      Slot.entry ⟨elseClause, true⟩ (cs.tail.getLast?.getD .absent))
  | .initAndLast initial last, cs =>
    .fields [(initial, .list cs.dropLast), (last, cs.getLast?.getD .absent)]
  | .whenPresent name, cs =>
    .fields (if (cs.headD .absent).present then [(name, .list cs)] else [])
  | .constants entries, _ => .fields (entries.map fun (name, value) => (name, .literal value))
  | .children, cs => .children cs

end Layout

end NamedTree
