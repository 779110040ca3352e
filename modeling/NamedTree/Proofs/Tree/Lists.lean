import NamedTree.Proofs.Tree.Stable

/-! # Which values other than objects read as nodes

A value that is not an object is meant to be a literal, and one that holds an object somewhere to be
refused. This is so with one exception: a list may give the parts of a node by their places
(`Json.IsNodeList`), and such a list reads as a node, also where a front end meant a list literal.
`ofJson?_of_isObject_eq_false` says what becomes of every value that is not an object, and
`ofJson?_list_isNode` shows the exception at work. Whatever a value without objects reads as, it
does read, and a literal that comes out of any value has its content
(`ofJson?_literal_unchanged`).

Whether a value is a literal does not depend on its shape but only on whether an object occurs in it
(`Json.ObjectFree`); the induction goes over the items of lists. -/

namespace NamedTree

namespace Json

/-- Whether a value is an object. -/
def isObject : Json → Bool
  | .obj _ => true
  | _ => false

mutual
/-- A value in which no object occurs. -/
def ObjectFree : Json → Prop
  | .arr items => AllObjectFree items
  | .obj _ => False
  | .null | .bool _ | .int _ | .float _ | .str _ => True

/-- Values in which no object occurs. -/
def AllObjectFree : List Json → Prop
  | [] => True
  | item :: items => ObjectFree item ∧ AllObjectFree items
end

mutual
instance decidableObjectFree : (v : Json) → Decidable v.ObjectFree
  | .arr items => decidableAllObjectFree items
  | .obj _ => inferInstanceAs (Decidable False)
  | .null | .bool _ | .int _ | .float _ | .str _ => inferInstanceAs (Decidable True)

instance decidableAllObjectFree : (items : List Json) → Decidable (AllObjectFree items)
  | [] => inferInstanceAs (Decidable True)
  | item :: items =>
    have := decidableObjectFree item
    have := decidableAllObjectFree items
    inferInstanceAs (Decidable (item.ObjectFree ∧ AllObjectFree items))
end

theorem objectFree_arr_iff (items : List Json) :
    (Json.arr items).ObjectFree ↔ ∀ item ∈ items, item.ObjectFree := by
  rw [ObjectFree]
  induction items with
  | nil => simp [AllObjectFree]
  | cons item items ih => rw [AllObjectFree, ih, List.forall_mem_cons]

/-- A list of values that all read as trees. -/
def ListsTrees : Json → Prop
  | .arr items => ∀ item ∈ items, (Tree.ofJson? item).isSome
  | _ => False

/-- A list that gives the parts of a node by their places: a name, then perhaps a list of trees,
then perhaps a location, which may be null. -/
def IsNodeList : Json → Prop
  | .arr [.str _] => True
  | .arr [.str _, children] => children.ListsTrees
  | .arr [.str _, children, location] =>
    children.ListsTrees ∧ (location = .null ∨ (Location.ofJson? location).isSome)
  | _ => False

end Json

/-! ### Literals -/

/-- A value reads as a literal exactly if no object occurs in it. -/
theorem Literal.isSome_ofJson?_iff (v : Json) : (ofJson? v).isSome ↔ v.ObjectFree := by
  induction v with
  | null | bool | int | float | str => simp [ofJson?, Json.ObjectFree]
  | arr items ih =>
    rw [ofJson?, Option.isSome_map, ofJsons?_eq_mapM, isSome_mapM_iff, Json.objectFree_arr_iff]
    exact forall₂_congr ih
  | obj entries ih => simp [ofJson?, Json.ObjectFree]

/-- A value without objects reads as the one literal that is written as it. -/
theorem Literal.exists_of_objectFree {v : Json} (hfinite : ∀ x ∈ v.doubles, x.isFinite = true)
    (hfree : v.ObjectFree) : ∃ l, ofJson? v = some l ∧ l.Canonical ∧ l.toJson = v := by
  obtain ⟨l, hl⟩ := Option.isSome_iff_exists.mp ((isSome_ofJson?_iff v).mpr hfree)
  have hv : l.toJson = v := toJson_of_ofJson? hfinite hl
  have hcanonical : l.Canonical := by
    rw [← ofJson?_toJson_iff, hv]
    exact hl
  exact ⟨l, hl, hcanonical, hv⟩

/-! ### Lists in the place of a child -/

namespace Tree

theorem isSome_children?_iff_listsTrees (v : Json) : (children? v).isSome ↔ v.ListsTrees := by
  cases v with
  | arr items => rw [children?, ofJsons?_eq_mapM, isSome_mapM_iff, Json.ListsTrees]
  | _ => simp [children?, Json.ListsTrees]

/-- The node that a list of a name and children reads as. -/
theorem ofParts?_pair (name : String) (part : Json) :
    ofParts? [.str name, part] (itemLists? [.str name, part]) =
      (children? part).map fun children => .node (.ofName name) children none := by
  cases hpart : children? part <;> simp [ofParts?, itemLists?, hpart]

/-- The node that a list of a name, children and a location reads as. -/
theorem ofParts?_triple (name : String) (part location : Json) :
    ofParts? [.str name, part, location] (itemLists? [.str name, part, location]) =
      (children? part).bind fun children =>
        (Json.item? Location.ofJson? [location] 0).map fun location =>
          .node (.ofName name) children location := by
  cases hpart : children? part <;> simp [ofParts?, itemLists?, hpart]

/-- A list reads as the parts of a node exactly if it gives them by their places. -/
theorem isSome_ofParts?_iff_isNodeList (items : List Json) :
    (ofParts? items (itemLists? items)).isSome ↔ (Json.arr items).IsNodeList := by
  match items with
  | [.str name] => simp [ofParts?, Json.IsNodeList]
  | [.str name, part] =>
    rw [ofParts?_pair, Option.isSome_map, isSome_children?_iff_listsTrees, Json.IsNodeList]
  | [.str name, part, location] =>
    have hlocation := Json.isSome_item?_iff Location.ofJson? [location] 0
    rw [ofParts?_triple, Json.IsNodeList, ← isSome_children?_iff_listsTrees]
    cases children? part <;> simp [hlocation]
  | [] | .str name :: _ :: _ :: _ :: _ | .null :: _ | .bool _ :: _ | .int _ :: _ | .float _ :: _
  | .arr _ :: _ | .obj _ :: _ => simp [ofParts?, Json.IsNodeList]

/-- **What becomes of a value that is not an object.** If it is a list that gives the parts of a
node, it reads as a node. Any other such value reads as the literal with the same content if no
object occurs in it, and is refused if one does. -/
theorem ofJson?_of_isObject_eq_false {v : Json} (hobject : v.isObject = false)
    (hfinite : ∀ x ∈ v.doubles, x.isFinite = true) :
    (v.IsNodeList → ∃ node, ofJson? v = some node ∧ node.isNode = true) ∧
    (¬ v.IsNodeList → v.ObjectFree →
      ∃ l, ofJson? v = some (.literal l) ∧ l.Canonical ∧ l.toJson = v) ∧
    (¬ v.IsNodeList → ¬ v.ObjectFree → ofJson? v = none) := by
  have hread : ¬ v.IsNodeList → ofJson? v = (Literal.ofJson? v).map .literal := by
    intro hlist
    cases v with
    | obj entries => cases hobject
    | arr items =>
      rw [← isSome_ofParts?_iff_isNodeList, Option.not_isSome_iff_eq_none] at hlist
      rw [ofJson?, hlist]
    | _ => rfl
  refine ⟨fun hlist => ?_, fun hlist hfree => ?_, fun hlist hheld => ?_⟩
  · cases v with
    | arr items =>
      obtain ⟨node, hnode⟩ := Option.isSome_iff_exists.mp
        ((isSome_ofParts?_iff_isNodeList items).mpr hlist)
      have hv : ofJson? (.arr items) = some node := by rw [ofJson?, hnode]
      exact ⟨node, hv, isNode_of_ofParts? hnode⟩
    | _ => exact hlist.elim
  · obtain ⟨l, hl, hcanonical, hv⟩ := Literal.exists_of_objectFree hfinite hfree
    have hliteral : ofJson? v = some (.literal l) := by rw [hread hlist, hl]; rfl
    exact ⟨l, hliteral, hcanonical, hv⟩
  · rw [← Literal.isSome_ofJson?_iff, Option.not_isSome_iff_eq_none] at hheld
    rw [hread hlist, hheld]
    rfl

/-- A list that begins like the parts of a node but has no location in the third place. -/
theorem ofJson?_list_isLiteral : ∃ v,
    v = Json.arr [.str "send", .arr [.float 0.5, .arr [.str "x"]], .ofInt64 7] ∧
    v.isObject = false ∧ (∀ x ∈ v.doubles, x.isFinite = true) ∧ ¬ v.IsNodeList ∧ v.ObjectFree ∧
    ∃ l, ofJson? v = some (.literal l) ∧ l.Canonical ∧ l.toJson = v := by
  have hfinite : ∀ x ∈ (Json.arr [.str "send", .arr [.float 0.5, .arr [.str "x"]],
      .ofInt64 7]).doubles, x.isFinite = true := by
    decide
  have hlist : ¬ (Json.arr [.str "send", .arr [.float 0.5, .arr [.str "x"]],
      .ofInt64 7]).IsNodeList := by
    rintro ⟨-, hnull | hlocation⟩
    · cases hnull
    · cases hlocation
  have hfree : (Json.arr [.str "send", .arr [.float 0.5, .arr [.str "x"]],
      .ofInt64 7]).ObjectFree := by
    decide
  obtain ⟨-, hliteral, -⟩ := ofJson?_of_isObject_eq_false rfl hfinite
  exact ⟨_, rfl, rfl, hfinite, hlist, hfree, hliteral hlist hfree⟩

/-- A list of a name and another list is a node, though no object occurs in it. -/
theorem ofJson?_list_isNode : ∃ v, v = Json.arr [.str "send", .arr [.null, .str "puts"]] ∧
    v.isObject = false ∧ v.ObjectFree ∧
    ofJson? v = some (.node (.ofName "send") [.literal .nil, .literal (.str "puts")] none) := by
  refine ⟨_, rfl, rfl, ?_, rfl⟩
  decide

/-! ### Literals in the place of a child -/

/-- A value without objects reads as a tree: what fails to be a node is a literal. -/
theorem isSome_ofJson?_of_objectFree {v : Json} (hfree : v.ObjectFree) : (ofJson? v).isSome := by
  obtain ⟨l, hl⟩ := Option.isSome_iff_exists.mp ((Literal.isSome_ofJson?_iff v).mpr hfree)
  cases v with
  | obj entries => exact hfree.elim
  | arr items =>
    rw [ofJson?]
    split
    · rfl
    · rw [hl]
      rfl
  | _ => rfl

/-- A literal is read only as such, since all that reads as a node is one. -/
theorem literalOfJson?_eq_some {v : Json} {l : Literal} (h : ofJson? v = some (.literal l)) :
    Literal.ofJson? v = some l := by
  rcases ofJson?_eq_some h with ⟨l', hl', hread⟩ | ⟨name, children, location, hnode, -⟩
  · cases hl'
    exact hread
  · cases hnode

/-- **Literals go through reading unchanged.** A value in which no object occurs reads as a tree. If
any value reads as a literal, then no object occurs in it, and the literal, its integers signed
wherever they fit, is written as this value again. -/
theorem ofJson?_literal_unchanged (v : Json) :
    (v.ObjectFree → (ofJson? v).isSome) ∧
    ∀ l, ofJson? v = some (.literal l) →
      v.ObjectFree ∧ ((∀ x ∈ v.doubles, x.isFinite = true) → l.Canonical ∧ l.toJson = v) := by
  refine ⟨isSome_ofJson?_of_objectFree, fun l h => ?_⟩
  have hl := literalOfJson?_eq_some h
  have hfree : v.ObjectFree := by
    rw [← Literal.isSome_ofJson?_iff, hl]
    rfl
  refine ⟨hfree, fun hfinite => ?_⟩
  have hv : l.toJson = v := Literal.toJson_of_ofJson? hfinite hl
  refine ⟨?_, hv⟩
  rw [← Literal.ofJson?_toJson_iff, hv]
  exact hl

/-- The bounds of integers, a double and a list in a list. -/
theorem ofJson?_literal_unchanged_bounds : ∃ v l,
    v = Json.arr [.ofInt64 0x7FFFFFFFFFFFFFFF, .ofUInt64 0x8000000000000000,
      .arr [.ofUInt64 0xFFFFFFFFFFFFFFFF, .float 0.5, .str "x"]] ∧
    l = Literal.list [.int 0x7FFFFFFFFFFFFFFF, .uint 0x8000000000000000,
      .list [.uint 0xFFFFFFFFFFFFFFFF, .float 0.5, .str "x"]] ∧
    v.ObjectFree ∧ ofJson? v = some (.literal l) ∧ (∀ x ∈ v.doubles, x.isFinite = true) ∧
    (ofJson? v).isSome ∧ l.Canonical ∧ l.toJson = v := by
  refine ⟨_, _, rfl, rfl, ?free, ?read, ?finite, (ofJson?_literal_unchanged _).1 ?free,
    ((ofJson?_literal_unchanged _).2 _ ?read).2 ?finite⟩
  case free => decide
  case read => rfl
  case finite => decide

end Tree

end NamedTree
