import NamedTree.Proofs.Kind.Fields
import NamedTree.Proofs.Output.Normal
import Mathlib.Data.List.TakeDrop

/-! # Naming conserves the children

The values of a body in the order of its fields, with the gathered lists spliced in, are the children
again (`Body.splice`): none stands there twice, none has moved, and none is missing but those that
the documentation gives up. `Keeping` names the ways in which the list of children may still change,
and `Kind.keeping` has the one of each kind:

* `slots`: as many children as there are slots, those that are missing as `nil`, and without what is
  not present in an optional slot;
* `padded`: all children, and `nil` for those that are missing to a least number;
* `withoutBlankElse`: all children, at least one, but without a last one that stands for an absent
  `else`;
* `ifFirst`: all children or, if the first one is not present, none.

`Kind.splice_apply_layout` is the law for all kinds but those whose fields are constant. It is proved for
layouts (`Layout.splice_apply`), where the places of a layout and the children are used up together;
names count only in that no place may have the name of a gathered list. -/

namespace NamedTree

open Converted

/-- The items of a list; anything else stands for itself. -/
def Converted.items : Converted → List Converted
  | .list items => items
  | c => [c]

/-- The values of fields in order, those with one of the given names spliced in. -/
def spliceFields (gathered : List String) (entries : List (String × Converted)) :
    List Converted :=
  entries.flatMap fun entry => if entry.1 ∈ gathered then entry.2.items else [entry.2]

/-- The values of a body in order, the fields with one of the given names spliced in. -/
def Body.splice (gathered : List String) : Body Converted → List Converted
  | .fields entries => spliceFields gathered entries
  | .children items => items
  | .nested => []

section SpliceFields
variable {gathered : List String}

@[simp] theorem spliceFields_nil : spliceFields gathered [] = [] := rfl

@[simp] theorem spliceFields_cons (entry : String × Converted)
    (entries : List (String × Converted)) : spliceFields gathered (entry :: entries) =
      (if entry.1 ∈ gathered then entry.2.items else [entry.2]) ++
        spliceFields gathered entries := rfl

@[simp] theorem spliceFields_append (before after : List (String × Converted)) :
    spliceFields gathered (before ++ after) =
      spliceFields gathered before ++ spliceFields gathered after :=
  List.flatMap_append

theorem spliceFields_eq_map {entries : List (String × Converted)}
    (h : ∀ entry ∈ entries, entry.1 ∉ gathered) :
    spliceFields gathered entries = entries.map (·.2) := by
  induction entries with
  | nil => rfl
  | cons entry entries ih =>
    have hrest := ih fun other hother => h other (List.mem_cons_of_mem _ hother)
    rw [spliceFields_cons, hrest, if_neg (h entry (List.mem_cons_self ..))]
    rfl

end SpliceFields

/-! ### What is kept of the children -/

/-- How the children of a node are kept. -/
inductive Keeping where
  | slots (optional : List Bool)
  | padded (least : ℕ)
  | withoutBlankElse
  | ifFirst
deriving DecidableEq

/-- The children that are kept. -/
def Keeping.kept : Keeping → List Converted → List Converted
  | .slots optional, cs =>
    ((optional.zip (cs.takeD optional.length absent)).filter
      fun (optional, c) => !optional || c.present).map (·.2)
  | .padded least, cs => cs.rightpad least absent
  | .withoutBlankElse, cs =>
    if 2 ≤ cs.length ∧ cs.getLast?.any present = false then cs.dropLast
    else cs.rightpad 1 absent
  | .ifFirst, cs => if cs.head?.any present then cs else []

/-- How the children of a kind are kept. Kinds without gathered fields have slots. -/
def Kind.keeping : Kind → Keeping
  | .known row =>
    match (Row.table.get row).name with
    | "send" | "csend" => .padded 2
    | "when" => .padded 1
    | "case" | "case_match" | "rescue" => .withoutBlankElse
    | "return" => .ifFirst
    | name =>
      match FieldDecl.ofName? name with
      | some fields =>
        if fields.any (·.gathers) then .padded 0 else .slots (fields.map (·.written ≠ .always))
      | none => .padded 0
  | .unknown _ => .padded 0

namespace Layout

/-- How a layout keeps the children. -/
def keeping : Layout → Keeping
  | .slots places => .slots (places.map (·.optional))
  | .everything _ => .padded 0
  | .leading names _ => .padded names.length
  | .dispatch _ _ => .withoutBlankElse
  | .initAndLast _ _ => .padded 1
  | .whenPresent _ => .ifFirst
  | .constants entries => .slots (entries.map fun _ => false)
  | .children => .padded 0

/-- The names of the lists that a layout gathers. -/
def gathered : Layout → List String
  | .everything name => [name]
  | .leading _ others => [others]
  | .dispatch _ middle => [middle]
  | .initAndLast initial _ => [initial]
  | .whenPresent name => [name]
  | _ => []

/-- Whether the fields of a layout are the same for all children. -/
def isConstant : Layout → Bool
  | .constants _ => true
  | _ => false

theorem filter_gathers_map_one (names : List String) :
    (names.map FieldDecl.one).filter (·.gathers) = [] := by
  rw [List.filter_eq_nil_iff]
  intro field hfield
  obtain ⟨name, -, rfl⟩ := List.mem_map.mp hfield
  exact Bool.false_ne_true

/-- The gathered fields of a layout are the ones that are declared to be. -/
theorem gathered_eq (layout : Layout) :
    layout.gathered = ((layout.fields?.getD []).filter (·.gathers)).map (·.name) := by
  cases layout with
  | slots places =>
    have hfields : (places.mapIdx slotField).filter (·.gathers) = [] := by
      rw [List.filter_eq_nil_iff]
      intro field hfield
      obtain ⟨index, hindex, rfl⟩ := List.mem_mapIdx.mp hfield
      unfold slotField
      split_ifs <;> exact Bool.false_ne_true
    rw [fields?, Option.getD_some, hfields]
    rfl
  | leading names others =>
    rw [fields?, Option.getD_some, List.filter_append, filter_gathers_map_one]
    rfl
  | constants entries =>
    have hfields := filter_gathers_map_one (entries.map (·.1))
    rw [List.map_map] at hfields
    rw [fields?, Option.getD_some]
    exact (congrArg (List.map FieldDecl.name) hfields).symm
  | _ => rfl

/-- The values of slots are the first children, one for each slot. -/
theorem map_snd_fill (places : List Slot) (cs : List Converted) :
    (fill places cs).map (·.2) = (Keeping.slots (places.map (·.optional))).kept cs := by
  have hentry : ∀ (place : Slot) (c : Converted) (rest : List (Bool × Converted)),
      (place.entry c).map (·.2) ++ (rest.filter fun (optional, c) => !optional || c.present).map
        (·.2) = (((place.optional, c) :: rest).filter
          fun (optional, c) => !optional || c.present).map (·.2) := by
    intro place c rest
    unfold Slot.entry
    cases hplace : place.optional <;> cases hc : c.present <;> simp [hc]
  fun_induction fill places cs with
  | case1 cs => rfl
  | case2 place places ih =>
    rw [List.map_append, ih]
    exact hentry place absent _
  | case3 place places c cs ih =>
    rw [List.map_append, ih]
    exact hentry place c _

theorem splice_leading {names : List String} {others : String}
    (hnames : (leading names others).names.Nodup) {cs : List Converted}
    (hlength : names.length ≤ cs.length) :
    ((leading names others).apply cs).splice [others] = cs := by
  have hothers : others ∉ names := by
    intro hmem
    exact (List.nodup_append.mp hnames).2.2 others hmem others (List.mem_singleton_self _) rfl
  have hfirst : spliceFields [others] (fill (names.map fun name => ⟨name, false⟩) cs) =
      cs.take names.length := by
    rw [spliceFields_eq_map, map_snd_fill_required names cs hlength]
    intro entry hentry hmem
    have hname := name_mem_of_mem_fill hentry
    rw [List.map_map, List.mem_singleton.mp hmem] at hname
    obtain ⟨name, hname, heq⟩ := List.mem_map.mp hname
    exact hothers (heq ▸ hname)
  rw [apply, Body.splice, spliceFields_append, hfirst, spliceFields_cons,
    if_pos (List.mem_singleton_self _), spliceFields_nil, List.append_nil]
  exact List.take_append_drop ..

theorem splice_dispatch {head middle : String} (hnames : (dispatch head middle).names.Nodup)
    (cs : List Converted) :
    ((dispatch head middle).apply cs).splice [middle] = Keeping.withoutBlankElse.kept cs := by
  have hhead : head ≠ middle := by
    rintro rfl
    simp [names] at hnames
  have helse : elseClause ≠ middle := by
    rintro rfl
    simp [names] at hnames
  rcases nil_or_singleton_or_first_last cs with rfl | ⟨c, rfl⟩ | ⟨first, items, last, rfl⟩
  · simp [apply, Body.splice, Slot.entry, Converted.items, hhead, Keeping.kept, List.rightpad]
  · simp [apply, Body.splice, Slot.entry, Converted.items, hhead, Keeping.kept, List.rightpad]
  · have hdrop : (first :: (items ++ [last])).dropLast = first :: items := by
      rw [← List.cons_append, List.dropLast_concat]
    rw [Keeping.kept, getLast?_cons_concat, hdrop]
    cases hpresent : last.present with
    | false => simp [apply, Body.splice, Slot.entry, Converted.items, hhead, hpresent]
    | true =>
      simp [apply, Body.splice, Slot.entry, Converted.items, hhead, helse, hpresent,
        List.rightpad]

/-- **A layout conserves the children** but for what it is declared to give up. -/
theorem splice_apply {layout : Layout} (hnames : layout.names.Nodup)
    (hconstant : layout.isConstant = false) (cs : List Converted) :
    (layout.apply cs).splice layout.gathered = layout.keeping.kept cs := by
  cases layout with
  | slots places =>
    have hvalues : (fill places cs).map (·.2) = spliceFields [] (fill places cs) :=
      (spliceFields_eq_map fun _ _ => List.not_mem_nil).symm
    exact hvalues.symm.trans (map_snd_fill places cs)
  | everything name => simp [apply, gathered, Body.splice, Converted.items, keeping, Keeping.kept,
      List.rightpad]
  | leading names others =>
    have hlength : names.length ≤ (cs.rightpad names.length absent).length := by
      rw [List.length_rightpad]
      exact Nat.le_max_left ..
    rw [← apply_rightpad]
    exact splice_leading hnames hlength
  | dispatch head middle => exact splice_dispatch hnames cs
  | initAndLast initial last =>
    have hlast : last ≠ initial := by
      rintro rfl
      simp [names] at hnames
    rcases List.eq_nil_or_concat cs with rfl | ⟨cs, c, rfl⟩
    · simp [apply, gathered, Body.splice, Converted.items, keeping, Keeping.kept, hlast,
        List.rightpad]
    · simp [apply, gathered, Body.splice, Converted.items, keeping, Keeping.kept, hlast,
        List.rightpad]
  | whenPresent name =>
    have hhead : cs.head?.any present = (cs.headD absent).present := by
      cases cs <;> rfl
    rw [keeping, Keeping.kept, hhead, apply]
    split_ifs <;> simp [gathered, Body.splice, Converted.items]
  | constants entries => cases hconstant
  | children => simp [apply, Body.splice, keeping, Keeping.kept, List.rightpad]

end Layout

/-! ### All kinds -/

theorem Kind.gathered_eq (kind : Kind) : kind.gathered = kind.layout.gathered := by
  rw [gathered, fields?_eq, Layout.gathered_eq]

/-- **The layout of a kind keeps the children as it is documented.** -/
theorem Kind.keeping_eq (kind : Kind) : kind.keeping = kind.layout.keeping := by
  cases kind with
  | known row =>
    have hrows : ∀ row, (known row).keeping = (known row).layout.keeping := by
      decide +kernel
    exact hrows row
  | unknown name => rfl

/-- The kinds whose fields are constant. -/
def Kind.constantKinds : List Kind := ["nil", "true", "false", "kwnilarg"].map Kind.ofName

theorem Kind.isConstant_layout {kind : Kind} (h : kind ∉ constantKinds) :
    kind.layout.isConstant = false := by
  cases kind with
  | known row =>
    have hrows : ∀ row, known row ∉ constantKinds → (known row).layout.isConstant = false := by
      decide +kernel
    exact hrows row h
  | unknown name => rfl

/-- **The children are conserved.** The values of the body, the gathered lists spliced in, are the
children in their order, without repetition and but for what is documented: padding, absent optional
children, children beyond the slots, and those of a `return` that has no first value. -/
theorem Kind.splice_apply_layout {kind : Kind} (hkind : kind ∉ Kind.constantKinds)
    (cs : List Converted) :
    (kind.layout.apply cs).splice kind.gathered = kind.keeping.kept cs := by
  rw [gathered_eq, keeping_eq]
  exact Layout.splice_apply kind.nodup_layout_names (isConstant_layout hkind) cs

/-- A dispatch with one branch, here a list, and `nil` for the absent `else`. -/
theorem Kind.splice_apply_case :
    Kind.ofName "case" ∉ Kind.constantKinds ∧
      ((Kind.ofName "case").layout.apply [.literal (.str "x"), .list [.absent, .absent],
        .absent]).splice (Kind.ofName "case").gathered =
          [.literal (.str "x"), .list [.absent, .absent]] := by
  have hkind : Kind.ofName "case" ∉ Kind.constantKinds := by
    decide +kernel
  have hkeeping : (Kind.ofName "case").keeping = .withoutBlankElse := by
    decide +kernel
  refine ⟨hkind, ?_⟩
  rw [Kind.splice_apply_layout hkind, hkeeping]
  rfl

end NamedTree
