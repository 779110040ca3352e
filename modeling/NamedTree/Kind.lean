import NamedTree.Kind.Table

/-! # Node kinds

A node is tagged with its kind: `known` is a row of the table, `unknown` carries any other name. A
name is looked up by `ofName`, so an unknown kind that came from a name is never the name of a row
(`ofName_eq_unknown`), and every name is recovered from its kind (`name_ofName`). -/

namespace NamedTree

/-- The kind of a node. -/
inductive Kind where
  | known (row : Fin Row.table.length)
  | unknown (name : String)
deriving DecidableEq

namespace Kind

/-- The kind with the given name. -/
def ofName (name : String) : Kind :=
  match Row.table.findFinIdx? (fun row => row.name == name) with
  | some row => .known row
  | none => .unknown name

/-- The row of a known kind. -/
def row? : Kind → Option Row
  | .known row => some (Row.table.get row)
  | .unknown _ => none

/-- The name that a kind is written with. -/
def name : Kind → String
  | .known row => (Row.table.get row).name
  | .unknown name => name

/-- The category of a kind; unknown kinds fall back. -/
def category : Kind → Category
  | .known row => (Row.table.get row).category
  | .unknown _ => .fallback

/-- The layout of the children; unknown kinds keep them as they are. -/
def layout : Kind → Layout
  | .known row => (Row.table.get row).layout
  | .unknown _ => .children

/-- Whether a kind has a row. -/
def isKnown : Kind → Bool
  | .known _ => true
  | .unknown _ => false

/-- Looking a name up and writing the kind gives the name back. -/
@[simp] theorem name_ofName (s : String) : (ofName s).name = s := by
  unfold ofName
  split
  · rename_i row h
    have := List.findFinIdx?_eq_some_iff.mp h
    simpa [name] using this.1
  · rfl

/-- Only names outside the table give unknown kinds. -/
theorem ofName_eq_unknown {s t : String} (h : ofName s = .unknown t) : t = s ∧ s ∉ Row.names := by
  unfold ofName at h
  split at h
  · cases h
  · rename_i hnone
    cases h
    refine ⟨rfl, fun hmem => ?_⟩
    obtain ⟨row, hrow, hname⟩ := List.mem_map.mp hmem
    have := List.findFinIdx?_eq_none_iff.mp hnone row hrow
    simp [hname] at this

end Kind

end NamedTree
