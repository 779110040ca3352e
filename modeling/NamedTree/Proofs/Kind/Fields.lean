import NamedTree.Kind
import Mathlib.Data.List.Basic
import Mathlib.Tactic.Simps.Basic

/-! # The documented fields

The documentation lists the fields of each kind: their names in order, which of them may be left
out, and which of them hold a list of children. `FieldDecl.table` is that list, by the names of the
kinds and without mention of layouts. A kind without a line, known or not, keeps its children under
no names.

`Kind.fields?_eq` says that the layouts of the kinds are the documented ones: what a layout declares
(`Layout.fields?`) is what the documentation has for its kind. So a statement about the documented
fields of all kinds is proved layout by layout. -/

namespace NamedTree

/-- When a field is written. -/
inductive Written where
  | always
  | ifChild (index : ℕ)
  | ifElse
deriving DecidableEq

namespace Written
variable {α β : Type}

/-- Whether what is so written is written for these children. An `else` needs a child of its own, so
it must be present and not the only child. -/
def holds (present : α → Bool) (cs : List α) : Written → Bool
  | .always => true
  | .ifChild index => cs[index]?.any present
  | .ifElse => 2 ≤ cs.length && cs.getLast?.any present

@[simp] theorem holds_always (present : α → Bool) (cs : List α) :
    Written.always.holds present cs = true := rfl

theorem holds_map {present : α → Bool} {present' : β → Bool} {f : α → β}
    (hpresent : ∀ c, present' (f c) = present c) (cs : List α) (written : Written) :
    written.holds present' (cs.map f) = written.holds present cs := by
  have hany : ∀ c : Option α, (c.map f).any present' = c.any present := by
    intro c
    cases c with
    | none => rfl
    | some c => exact hpresent c
  cases written with
  | always => rfl
  | ifChild index => rw [holds, holds, List.getElem?_map, hany]
  | ifElse => rw [holds, holds, List.getLast?_map, List.length_map, hany]

end Written

/-- A field as it is documented: its name, when it is written, and whether it holds a list of
children instead of one child. -/
structure FieldDecl where
  name : String
  written : Written := .always
  gathers : Bool := false
deriving DecidableEq

namespace FieldDecl

/-- A field for one child that is always written. -/
@[simps] def one (name : String) : FieldDecl := ⟨name, .always, false⟩

/-- A field for the child at an index, written only if that child is present. -/
@[simps] def optional (name : String) (index : ℕ) : FieldDecl := ⟨name, .ifChild index, false⟩

/-- A field for a list of children that is always written. -/
@[simps] def gathered (name : String) : FieldDecl := ⟨name, .always, true⟩

/-- The field for the last branch of a dispatch. -/
def elseField : FieldDecl := ⟨"else_clause", .ifElse, false⟩

/-- The documented fields, by the names of the kinds. -/
def table : List (List String × List FieldDecl) := [
  (["if", "unless"], [one "condition", one "then_branch", optional "else_branch" 2]),
  (["while", "while_post", "until", "until_post"], [one "condition", one "body"]),
  (["for", "for_post"], [one "variable", one "collection", one "body"]),
  (["def"], [one "name", one "arguments", one "body"]),
  (["defs"], [one "base", one "name", one "arguments", one "body"]),
  (["class"], [one "name", optional "superclass" 1, one "body"]),
  (["sclass"], [one "name", one "def", one "body"]),
  (["module"], [one "name", one "body"]),
  (["block"], [one "call_name", one "arguments", one "body"]),
  (["numblock"], [one "call", one "param_idx", one "body"]),
  (["itblock"], [one "call", one "body"]),
  (["begin", "kwbegin"], [gathered "body"]),
  (["case"], [one "case_expression", gathered "when_clauses", elseField]),
  (["case_match", "rescue"], [one "statement", gathered "bodies", elseField]),
  (["when"], [gathered "conditions", one "then_branch"]),
  (["in_pattern"], [one "pattern", one "guard", one "body"]),
  (["match_as"], [one "value", one "as"]),
  (["resbody"], [one "exec_list", one "exec_var", one "body"]),
  (["ensure"], [one "statement", one "body"]),
  (["if_guard", "unless_guard"], [one "condition"]),
  (["match_alt"], [one "left", one "right"]),
  (["casgn"], [one "base", one "lhs", one "rhs"]),
  (["op_asgn"], [one "lhs", one "op", one "rhs"]),
  (["lvasgn", "ivasgn", "gvasgn", "cvasgn", "or_asgn", "and_asgn", "match_with_lvasgn"],
    [one "lhs", optional "rhs" 1]),
  (["and", "or", "match_pattern", "match_pattern_p"], [one "lhs", one "rhs"]),
  (["nil", "true", "false"], [one "value"]),
  (["kwarg", "kwoptarg"], [one "key", one "value"]),
  (["int", "float", "rational", "complex", "str", "sym", "arg", "restarg", "blockarg", "shadowarg",
    "self", "ident", "lvar", "cvar", "gvar", "ivar", "splat", "kwsplat", "block_pass", "match_var",
    "match_rest"], [one "value"]),
  (["regopt", "redo"], [optional "value" 0]),
  (["const", "cbase"], [one "base", one "name"]),
  (["send", "csend"], [one "receiver", one "name", gathered "arguments"]),
  (["yield", "super", "defined?", "xstr"], [gathered "arguments"]),
  (["pair", "optarg"], [one "key", one "value"]),
  (["alias"], [one "alias", one "name"]),
  (["regexp"], [one "value", one "opt"]),
  (["erange", "irange", "eflipflop", "iflipflop"], [one "start", one "end"]),
  (["masgn"], [one "lhs", one "rhs"]),
  (["preexe", "postexe"], [one "body"]),
  (["kwnilarg"], [one "call", one "body"]),
  (["kwrestarg"], [one "name", optional "value" 1]),
  (["pin"], [one "value"]),
  (["return"], [⟨"values", .ifChild 0, true⟩]),
  (["break", "next"], [optional "arguments" 0]),
  (["forward_args", "forwarded_args", "forward_arg", "retry", "zsuper", "match_nil_pattern"], [])]

/-- The documented fields of the kind with the given name. -/
def ofName? (name : String) : Option (List FieldDecl) :=
  (table.find? fun line => line.1.contains name).map (·.2)

end FieldDecl

/-- The documented fields of a kind; none if its children have no names. -/
def Kind.fields? : Kind → Option (List FieldDecl)
  | .known row => FieldDecl.ofName? (Row.table.get row).name
  | .unknown _ => none

/-- The names of the fields of a kind that hold a list of children. -/
def Kind.gathered (kind : Kind) : List String :=
  ((kind.fields?.getD []).filter (·.gathers)).map (·.name)

namespace Layout

/-- The field that stands for a slot. -/
def slotField (index : ℕ) (slot : Slot) : FieldDecl :=
  if slot.optional then .optional slot.name index else .one slot.name

/-- The fields that a layout declares, if it gives names at all. -/
def fields? : Layout → Option (List FieldDecl)
  | .slots places => some (places.mapIdx slotField)
  | .everything name => some [.gathered name]
  | .leading names others => some (names.map .one ++ [.gathered others])
  | .dispatch head middle => some [.one head, .gathered middle, ⟨elseClause, .ifElse, false⟩]
  | .initAndLast initial last => some [.gathered initial, .one last]
  | .whenPresent name => some [⟨name, .ifChild 0, true⟩]
  | .constants entries => some (entries.map fun entry => .one entry.1)
  | .children => none

end Layout

/-- Every row has the layout that is documented for it. -/
theorem Row.fields?_eq : ∀ row ∈ Row.table, FieldDecl.ofName? row.name = row.layout.fields? := by
  decide +kernel

/-- **The layout of a kind declares the documented fields.** -/
theorem Kind.fields?_eq (kind : Kind) : kind.fields? = kind.layout.fields? := by
  cases kind with
  | known row => exact Row.fields?_eq _ (List.get_mem _ row)
  | unknown name => rfl

/-- The kinds without names for their children are the collections and the unknown ones. -/
theorem Kind.fields?_eq_none_iff (kind : Kind) :
    kind.fields? = none ↔ kind.category = .collection ∨ kind.category = .fallback := by
  rw [fields?_eq]
  cases kind with
  | known row =>
    have hrows : ∀ row ∈ Row.table, row.layout.fields? = none ↔
        row.category = .collection ∨ row.category = .fallback := by
      decide +kernel
    exact hrows _ (List.get_mem _ row)
  | unknown name => exact iff_of_true rfl (Or.inr rfl)

/-- No kind has a field twice, nor one under a key that every node has. -/
theorem Kind.nodup_fields {kind : Kind} {fields : List FieldDecl} (h : kind.fields? = some fields) :
    ("type" :: "meta_data" :: fields.map FieldDecl.name).Nodup := by
  rw [fields?_eq] at h
  cases kind with
  | known row =>
    have hrows : ∀ row ∈ Row.table, ∀ fields ∈ row.layout.fields?,
        ("type" :: "meta_data" :: fields.map FieldDecl.name).Nodup := by
      decide +kernel
    exact hrows _ (List.get_mem _ row) fields h
  | unknown name => cases h

end NamedTree
