import NamedTree.Proofs.Json.Doubles
import NamedTree.Proofs.Tree.RoundTrip

/-! # Reading a tree is a normalisation

Many values read as the same tree: parts may be given by name or by place, be null or missing, and
stand among unknown keys. The tree that is read is *stable* all the same: written and read again, it
comes back as it is (`ofJson?_toJson_of_ofJson?`).

A literal is written exactly as the value that it was read from (`Literal.toJson_of_ofJson?`), so
what failed to read as a node fails again. A node is stable because its kind was looked up by name
and its children are stable; they are read from a part of a part of the value (`Json.parts`), and
the induction goes over the parts of values (`of_read`).

The doubles of the value are finite, as those of every JSON text are: what is not finite has no JSON
form. -/

namespace NamedTree

/-! ### Reading lists item by item -/

theorem exists_of_mem_of_mapM {read : β → Option α} {items : List β} {found : List α} {a : α}
    (h : items.mapM read = some found) (ha : a ∈ found) : ∃ item ∈ items, read item = some a := by
  induction items generalizing found with
  | nil =>
    cases h
    cases ha
  | cons item items ih =>
    rw [List.mapM_cons] at h
    obtain ⟨first, hfirst, h⟩ := Option.bind_eq_some_iff.mp h
    obtain ⟨others, hothers, h⟩ := Option.bind_eq_some_iff.mp h
    cases h
    rcases List.mem_cons.mp ha with rfl | ha
    · exact ⟨item, List.mem_cons_self, hfirst⟩
    · obtain ⟨item', hitem', hread⟩ := ih hothers ha
      exact ⟨item', List.mem_cons_of_mem _ hitem', hread⟩

theorem map_eq_of_mapM {read : β → Option α} {write : α → β} {items : List β} {found : List α}
    (h : items.mapM read = some found)
    (hwrite : ∀ item ∈ items, ∀ a, read item = some a → write a = item) :
    found.map write = items := by
  induction items generalizing found with
  | nil =>
    cases h
    rfl
  | cons item items ih =>
    rw [List.mapM_cons] at h
    obtain ⟨first, hfirst, h⟩ := Option.bind_eq_some_iff.mp h
    obtain ⟨others, hothers, h⟩ := Option.bind_eq_some_iff.mp h
    cases h
    rw [List.forall_mem_cons] at hwrite
    rw [List.map_cons, hwrite.1 first hfirst, ih hothers hwrite.2]

/-! ### Literals are written as they were read -/

theorem Literal.toJson_ofInteger (n : Json.Integer) : (ofInteger n).toJson = .int n := by
  obtain ⟨val, hlower, hupper⟩ := n
  unfold ofInteger
  split_ifs with hsigned <;> simp only at hsigned
  · have hval : (Int64.ofInt val).toInt = val := Int64.toInt_ofInt_of_le (by omega) (by omega)
    rw [toJson, Json.ofInt64, Json.int.injEq, Json.Integer.ofInt64, Json.Integer.mk.injEq]
    exact hval
  · have hval : ((UInt64.ofNat val.toNat).toNat : ℤ) = val := by
      rw [UInt64.toNat_ofNat']
      omega
    rw [toJson, Json.ofUInt64, Json.int.injEq, Json.Integer.ofUInt64, Json.Integer.mk.injEq]
    exact hval

/-- **A literal is written as the value that it was read from.** -/
theorem Literal.toJson_of_ofJson? {v : Json} {l : Literal}
    (hfinite : ∀ x ∈ v.doubles, x.isFinite = true) (h : ofJson? v = some l) : l.toJson = v := by
  induction v generalizing l with
  | null | bool b | str s =>
    cases h
    rfl
  | int n =>
    cases h
    exact toJson_ofInteger n
  | float x =>
    cases h
    exact toJson_float (hfinite x (by simp [Json.doubles]))
  | arr items ih =>
    rw [ofJson?, ofJsons?_eq_mapM] at h
    obtain ⟨found, hfound, rfl⟩ := Option.map_eq_some_iff.mp h
    have hitems : found.map toJson = items := by
      refine map_eq_of_mapM hfound fun item hitem l hl => ih item hitem (fun x hx => ?_) hl
      exact hfinite x (by rw [Json.doubles_arr]; exact List.mem_flatMap.mpr ⟨item, hitem, hx⟩)
    rw [toJson, toJsons_eq_map, hitems]
  | obj entries ih => cases h

/-! ### What reading a tree can do -/

/-- The values that a value holds directly. -/
def Json.parts : Json → List Json
  | .arr items => items
  | .obj entries => entries.map (·.2)
  | _ => []

theorem Json.doubles_subset_of_mem_parts {v part : Json} (h : part ∈ v.parts) :
    part.doubles ⊆ v.doubles := by
  intro x hx
  cases v with
  | arr items =>
    rw [doubles_arr]
    exact List.mem_flatMap.mpr ⟨part, h, hx⟩
  | obj entries =>
    obtain ⟨entry, hentry, rfl⟩ := List.mem_map.mp h
    rw [doubles_obj]
    exact List.mem_flatMap.mpr ⟨entry, hentry, hx⟩
  | _ => cases h

/-- Induction over the parts of values. -/
theorem Json.induction_parts {motive : Json → Prop}
    (h : ∀ v, (∀ part ∈ v.parts, motive part) → motive v) (v : Json) : motive v := by
  induction v with
  | arr items ih => exact h _ ih
  | obj entries ih =>
    refine h _ fun part hpart => ?_
    obtain ⟨entry, hentry, rfl⟩ := List.mem_map.mp hpart
    exact ih entry hentry
  | _ => exact h _ fun part hpart => by cases hpart

namespace Tree

theorem entryLists?_eq_map (entries : List (String × Json)) :
    entryLists? entries = entries.map fun (key, v) => (key, children? v) := by
  induction entries with
  | nil => rw [entryLists?, List.map_nil]
  | cons entry entries ih => rw [entryLists?, ih, List.map_cons]

/-- A node that is read has the kind of a name and no children, or those of a part. -/
def IsRead (parts : List Json) (tree : Tree) : Prop :=
  ∃ name children location, tree = .node (.ofName name) children location ∧
    (children = [] ∨ ∃ part ∈ parts, children? part = some children)

theorem isRead_of_ofEntries? {entries : List (String × Json)} {tree : Tree}
    (h : ofEntries? entries (entryLists? entries) = some tree) :
    IsRead (entries.map (·.2)) tree := by
  unfold ofEntries? at h
  split at h
  · rename_i name location _ _ _
    cases h
    exact ⟨name, [], location, rfl, Or.inl rfl⟩
  · rename_i name children location _ hchildren _
    cases h
    have hmem : some children ∈ Json.occurrences "children" (entryLists? entries) := by
      rw [hchildren]
      exact List.mem_singleton_self _
    rw [Json.occurrences, entryLists?_eq_map] at hmem
    obtain ⟨list, hlist, hsome⟩ := List.mem_map.mp hmem
    obtain ⟨entry, hentry, rfl⟩ := List.mem_map.mp (List.mem_of_mem_filter hlist)
    exact ⟨name, children, location, rfl, Or.inr ⟨entry.2, List.mem_map_of_mem hentry, hsome⟩⟩
  · cases h

theorem isRead_of_ofParts? {items : List Json} {tree : Tree}
    (h : ofParts? items (itemLists? items) = some tree) : IsRead items tree := by
  unfold ofParts? at h
  split at h
  · cases h
    exact ⟨_, [], none, rfl, Or.inl rfl⟩
  · rename_i name part _ children hlists
    cases h
    simp only [itemLists?, List.cons.injEq, and_true] at hlists
    exact ⟨name, children, none, rfl, Or.inr ⟨part, by simp, hlists.2⟩⟩
  · rename_i name part location _ children _ hlists
    obtain ⟨location, -, rfl⟩ := Option.map_eq_some_iff.mp h
    simp only [itemLists?, List.cons.injEq] at hlists
    exact ⟨name, children, location, rfl, Or.inr ⟨part, by simp, hlists.2.1⟩⟩
  · cases h

/-- What reading a tree can do. -/
theorem ofJson?_eq_some {v : Json} {tree : Tree} (h : ofJson? v = some tree) :
    (∃ l, tree = .literal l ∧ Literal.ofJson? v = some l) ∨ IsRead v.parts tree := by
  cases v with
  | obj entries =>
    rw [ofJson?] at h
    exact Or.inr (isRead_of_ofEntries? h)
  | arr items =>
    rw [ofJson?] at h
    split at h
    · rename_i node hparts
      cases h
      exact Or.inr (isRead_of_ofParts? hparts)
    · obtain ⟨l, hl, rfl⟩ := Option.map_eq_some_iff.mp h
      exact Or.inl ⟨l, rfl, hl⟩
  | _ =>
    simp only [ofJson?] at h
    obtain ⟨l, hl, rfl⟩ := Option.map_eq_some_iff.mp h
    exact Or.inl ⟨l, rfl, hl⟩

/-- What reading keeps. If a property passes from the children to a node whose kind was looked up by
name, and the literals that are read have it, then all trees have it that are read from a value. The
condition on the values passes to their parts. -/
theorem of_read {P : Tree → Prop} {Q : Json → Prop} (hparts : ∀ v, Q v → ∀ part ∈ v.parts, Q part)
    (hliteral : ∀ v l, Q v → ofJson? v = some (.literal l) → Literal.ofJson? v = some l →
      P (.literal l))
    (hnode : ∀ name children location, (∀ child ∈ children, P child) →
      P (.node (.ofName name) children location)) (v : Json) : Q v →
    (∀ tree, ofJson? v = some tree → P tree) ∧
      ∀ children, children? v = some children → ∀ child ∈ children, P child := by
  induction v using Json.induction_parts with
  | h v ih =>
    intro hv
    refine ⟨fun tree h => ?_, fun children h child hchild => ?_⟩
    · rcases ofJson?_eq_some h with ⟨l, rfl, hl⟩ | ⟨name, children, location, rfl, hchildren⟩
      · exact hliteral v l hv h hl
      · refine hnode name children location fun child hchild => ?_
        rcases hchildren with rfl | ⟨part, hmem, hread⟩
        · cases hchild
        · exact (ih part hmem (hparts v hv part hmem)).2 children hread child hchild
    · cases v with
      | arr items =>
        rw [children?, ofJsons?_eq_mapM] at h
        obtain ⟨item, hitem, hread⟩ := exists_of_mem_of_mapM h hchild
        exact (ih item hitem (hparts _ hv item hitem)).1 child hread
      | _ => cases h

/-! ### Trees that are read are stable -/

/-- A tree that comes back when it is written and read. -/
def Stable (tree : Tree) : Prop := ofJson? tree.toJson = some tree

/-- A node whose kind was looked up by name is as stable as its children. -/
theorem Stable.node (name : String) (children : List Tree) (location : Option Location)
    (h : ∀ child ∈ children, child.Stable) : Stable (.node (.ofName name) children location) := by
  have hchildren : ofJsons? (toJsons children) = some children := by
    rw [ofJsons?_eq_mapM, toJsons_eq_map, mapM_map_eq_some_iff]
    exact h
  rw [Stable, ofJson?_toJson_node, hchildren, Kind.name_ofName]
  rfl

/-- A literal that was read is stable, because it is written as what it was read from. -/
theorem Stable.literal (v : Json) (l : Literal) (hfinite : ∀ x ∈ v.doubles, x.isFinite = true)
    (h : ofJson? v = some (.literal l)) (hl : Literal.ofJson? v = some l) :
    Stable (.literal l) := by
  rw [Stable, toJson, Literal.toJson_of_ofJson? hfinite hl]
  exact h

/-- **Reading is a normalisation: a tree that was read comes back when it is written and read.** -/
theorem ofJson?_toJson_of_ofJson? {v : Json} (hfinite : ∀ x ∈ v.doubles, x.isFinite = true)
    {tree : Tree} (h : ofJson? v = some tree) : ofJson? tree.toJson = some tree :=
  (of_read (fun _ h _ hpart x hx => h x (Json.doubles_subset_of_mem_parts hpart hx))
    Stable.literal Stable.node v hfinite).1 tree h

/-- Parts by place and by name, an unknown key, a null location, and a list that is no node. -/
theorem ofJson?_toJson_mixed_spellings : ∃ v tree,
    v = Json.arr [.str "send",
      .arr [.obj [("note", .arr []), ("type", .str "x"), ("location", .null)],
        .arr [.str "x", .float 0.5]],
      .arr [.null, .ofInt64 7]] ∧
    tree = Tree.node (.ofName "send") [.node (.ofName "x") [] none,
      .literal (.list [.str "x", .float 0.5])] (some { column := some 7 }) ∧
    (∀ x ∈ v.doubles, x.isFinite = true) ∧ ofJson? v = some tree ∧
    ofJson? tree.toJson = some tree := by
  refine ⟨_, _, rfl, rfl, ?finite, ?read, ofJson?_toJson_of_ofJson? ?finite ?read⟩
  case finite => decide
  case read => rfl

end Tree

end NamedTree
