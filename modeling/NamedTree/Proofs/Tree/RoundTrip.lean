import NamedTree.Tree.Codec
import Mathlib.Data.List.Nodup
import Mathlib.Tactic.IntervalCases

/-! # Which trees survive being written and read

Writing a tree as a JSON value and reading the value gives the tree back exactly if the tree is
*canonical* (`ofJson?_toJson_eq_some_iff`). Four things get lost otherwise:

* an unknown kind that has the name of a row comes back as the known kind;
* a `uint` that fits 63 bits comes back as an `int`;
* a double that is not finite comes back as `nil`;
* a list literal that stands as a child and has the shape of a node (`NodeShaped`) comes back as a
  node, because a list is first tried as the parts of a node.

Inside a list literal nothing is tried as a node, so the shape matters only for a child or the root
and the first three of these are all that a literal can lose (`Literal.ofJson?_toJson_iff`). -/

namespace NamedTree

/-! ### Canonical literals and trees -/

/-- A kind that is found again under its name. -/
def Kind.Canonical : Kind → Prop
  | .known _ => True
  | .unknown name => name ∉ Row.names

instance : (kind : Kind) → Decidable kind.Canonical
  | .known _ => inferInstanceAs (Decidable True)
  | .unknown name => inferInstanceAs (Decidable (name ∉ Row.names))

namespace Literal

mutual
/-- A literal whose integers are signed whenever they fit and whose doubles are finite. -/
def Canonical : Literal → Prop
  | .uint n => 0x7FFFFFFFFFFFFFFF < n.toNat
  | .float x => x.isFinite = true
  | .list items => AllCanonical items
  | _ => True

/-- All literals of a list are canonical. -/
def AllCanonical : List Literal → Prop
  | [] => True
  | item :: items => Canonical item ∧ AllCanonical items
end

mutual
instance decidableCanonical : (l : Literal) → Decidable l.Canonical
  | .uint n => inferInstanceAs (Decidable (0x7FFFFFFFFFFFFFFF < n.toNat))
  | .float x => inferInstanceAs (Decidable (x.isFinite = true))
  | .list items => decidableAllCanonical items
  | .nil | .bool _ | .int _ | .str _ => inferInstanceAs (Decidable True)

instance decidableAllCanonical : (items : List Literal) → Decidable (AllCanonical items)
  | [] => inferInstanceAs (Decidable True)
  | item :: items =>
    have := decidableCanonical item
    have := decidableAllCanonical items
    inferInstanceAs (Decidable (item.Canonical ∧ AllCanonical items))
end

/-- `nil` or a signed 64-bit integer: what reads as a line or a column. -/
def IsPlace : Literal → Prop
  | .nil | .int _ => True
  | .uint n => n.toNat ≤ 0x7FFFFFFFFFFFFFFF
  | _ => False

/-- An unsigned 64-bit integer: what reads as an offset. -/
def IsOffset : Literal → Prop
  | .int n => 0 ≤ n.toInt
  | .uint _ => True
  | _ => False

/-- `nil` or a list of two offsets: what reads as a range that may be missing. -/
def IsRange : Literal → Prop
  | .nil => True
  | .list [first, last] => first.IsOffset ∧ last.IsOffset
  | _ => False

/-- `nil` or a list of at most four places and a range: what reads as a location that may be
missing. -/
def IsLocation : Literal → Prop
  | .nil => True
  | .list items =>
    items.length ≤ 5 ∧ (∀ index < 4, ∀ item ∈ items[index]?, item.IsPlace) ∧
      ∀ item ∈ items[4]?, item.IsRange
  | _ => False

instance : (l : Literal) → Decidable l.IsPlace
  | .nil | .int _ => inferInstanceAs (Decidable True)
  | .uint n => inferInstanceAs (Decidable (n.toNat ≤ 0x7FFFFFFFFFFFFFFF))
  | .bool _ | .float _ | .str _ | .list _ => inferInstanceAs (Decidable False)

instance : (l : Literal) → Decidable l.IsOffset
  | .int n => inferInstanceAs (Decidable (0 ≤ n.toInt))
  | .uint _ => inferInstanceAs (Decidable True)
  | .nil | .bool _ | .float _ | .str _ | .list _ => inferInstanceAs (Decidable False)

instance : (l : Literal) → Decidable l.IsRange
  | .nil => inferInstanceAs (Decidable True)
  | .list [first, last] => inferInstanceAs (Decidable (first.IsOffset ∧ last.IsOffset))
  | .list [] | .list [_] | .list (_ :: _ :: _ :: _) => inferInstanceAs (Decidable False)
  | .bool _ | .int _ | .uint _ | .float _ | .str _ => inferInstanceAs (Decidable False)

instance : (l : Literal) → Decidable l.IsLocation
  | .nil => inferInstanceAs (Decidable True)
  | .list items => inferInstanceAs (Decidable (items.length ≤ 5 ∧
      (∀ index < 4, ∀ item ∈ items[index]?, item.IsPlace) ∧ ∀ item ∈ items[4]?, item.IsRange))
  | .bool _ | .int _ | .uint _ | .float _ | .str _ => inferInstanceAs (Decidable False)

/-- A list that reads as the parts of a node: a name, then perhaps children, then perhaps a
location. -/
def NodeShaped : Literal → Prop
  | .list [.str _] => True
  | .list [.str _, .list _] => True
  | .list [.str _, .list _, location] => location.IsLocation
  | _ => False

instance (l : Literal) : Decidable l.NodeShaped := by
  unfold NodeShaped
  split <;> infer_instance

end Literal

namespace Tree

mutual
/-- A tree that is read back as it is written. -/
def Canonical : Tree → Prop
  | .node kind children _ => kind.Canonical ∧ AllCanonical children
  | .literal value => value.Canonical ∧ ¬ value.NodeShaped

/-- All trees of a list are canonical. -/
def AllCanonical : List Tree → Prop
  | [] => True
  | tree :: trees => Canonical tree ∧ AllCanonical trees
end

mutual
instance decidableCanonical : (tree : Tree) → Decidable tree.Canonical
  | .node kind children _ =>
    have := decidableAllCanonical children
    inferInstanceAs (Decidable (kind.Canonical ∧ AllCanonical children))
  | .literal value => inferInstanceAs (Decidable (value.Canonical ∧ ¬ value.NodeShaped))

instance decidableAllCanonical : (trees : List Tree) → Decidable (AllCanonical trees)
  | [] => inferInstanceAs (Decidable True)
  | tree :: trees =>
    have := decidableCanonical tree
    have := decidableAllCanonical trees
    inferInstanceAs (Decidable (tree.Canonical ∧ AllCanonical trees))
end

end Tree

/-! ### Reading lists item by item -/

theorem mapM_map_eq_some_iff (read : β → Option α) (write : α → β) (items : List α) :
    (items.map write).mapM read = some items ↔ ∀ item ∈ items, read (write item) = some item := by
  induction items with
  | nil => simp
  | cons item items ih =>
    rw [List.forall_mem_cons, ← ih, List.map_cons, List.mapM_cons]
    cases read (write item) <;> cases (items.map write).mapM read <;> simp

theorem isSome_mapM_iff (read : β → Option α) (items : List β) :
    (items.mapM read).isSome ↔ ∀ item ∈ items, (read item).isSome := by
  induction items with
  | nil => simp
  | cons item items ih =>
    rw [List.forall_mem_cons, ← ih, List.mapM_cons]
    cases read item <;> cases items.mapM read <;> simp

/-! ### Kinds and integers -/

theorem Kind.ofName_name_of_known (row : Fin Row.table.length) :
    ofName (Kind.known row).name = .known row := by
  cases hk : ofName (Kind.known row).name with
  | known other =>
    have hname : (Kind.known other).name = (Kind.known row).name := by rw [← hk, name_ofName]
    have hrow : Row.table.get other = Row.table.get row :=
      List.inj_on_of_nodup_map Row.names_nodup (List.get_mem _ _) (List.get_mem _ _) hname
    rw [(List.Nodup.of_map _ Row.names_nodup).get_inj_iff.mp hrow]
  | unknown s =>
    obtain ⟨-, hmem⟩ := ofName_eq_unknown hk
    exact absurd (List.mem_map_of_mem (List.get_mem _ row)) hmem

theorem Kind.ofName_name_eq_iff (kind : Kind) : ofName kind.name = kind ↔ kind.Canonical := by
  cases kind with
  | known row => simp [ofName_name_of_known, Canonical]
  | unknown s =>
    constructor
    · intro h
      exact (ofName_eq_unknown h).2
    · intro h
      cases hk : ofName (Kind.unknown s).name with
      | known row =>
        have hname : (Kind.known row).name = s := by rw [← hk, name_ofName]; rfl
        exact absurd (hname ▸ List.mem_map_of_mem (List.get_mem _ row)) h
      | unknown t => rw [(ofName_eq_unknown hk).1]; rfl

namespace Json.Integer

@[simp] theorem toInt64?_ofInt64 (n : Int64) : (ofInt64 n).toInt64? = some n := by
  have := n.toInt_lt
  simp [toInt64?, ofInt64]; omega

@[simp] theorem toUInt64?_ofUInt64 (n : UInt64) : (ofUInt64 n).toUInt64? = some n := by
  simp [toUInt64?, ofUInt64]

theorem isSome_toInt64?_ofUInt64 (n : UInt64) :
    (ofUInt64 n).toInt64?.isSome ↔ n.toNat ≤ 0x7FFFFFFFFFFFFFFF := by
  unfold toInt64? ofUInt64
  split_ifs with h
  · simp at h ⊢; omega
  · simp at h ⊢; omega

theorem isSome_toUInt64?_ofInt64 (n : Int64) : (ofInt64 n).toUInt64?.isSome ↔ 0 ≤ n.toInt := by
  unfold toUInt64? ofInt64
  split_ifs with h <;> simp [h]

end Json.Integer

/-! ### Literals -/

namespace Literal

@[simp] theorem ofInteger_ofInt64 (n : Int64) : ofInteger (.ofInt64 n) = .int n := by
  have := n.toInt_lt
  simp [ofInteger, Json.Integer.ofInt64]; omega

theorem ofInteger_ofUInt64_eq_iff (n : UInt64) :
    ofInteger (.ofUInt64 n) = .uint n ↔ 0x7FFFFFFFFFFFFFFF < n.toNat := by
  unfold ofInteger Json.Integer.ofUInt64
  split_ifs with h
  · simp at h ⊢; omega
  · simp at h ⊢; omega

theorem toJsons_eq_map (items : List Literal) : toJsons items = items.map toJson := by
  induction items with
  | nil => rfl
  | cons item items ih => rw [toJsons, ih, List.map_cons]

theorem ofJsons?_eq_mapM (items : List Json) : ofJsons? items = items.mapM ofJson? := by
  induction items with
  | nil => rfl
  | cons item items ih =>
    rw [ofJsons?, ih, List.mapM_cons]
    cases ofJson? item <;> cases items.mapM ofJson? <;> rfl

theorem allCanonical_iff (items : List Literal) :
    AllCanonical items ↔ ∀ item ∈ items, item.Canonical := by
  induction items with
  | nil => simp [AllCanonical]
  | cons item items ih => simp [AllCanonical, ih]

/-- **A literal is read back exactly if it is canonical.** -/
theorem ofJson?_toJson_iff (l : Literal) : ofJson? l.toJson = some l ↔ l.Canonical := by
  induction l with
  | nil | bool | str => simp [toJson, ofJson?, Canonical]
  | int n => simp [toJson, Json.ofInt64, ofJson?, Canonical]
  | uint n =>
    simp only [toJson, Json.ofUInt64, ofJson?, Canonical, Option.some.injEq]
    exact ofInteger_ofUInt64_eq_iff n
  | float x =>
    unfold toJson Json.ofFloat Canonical
    split_ifs with hx <;> simp [ofJson?, hx]
  | list items ih =>
    simp only [toJson, ofJson?, Option.map_eq_some_iff, list.injEq, exists_eq_right, Canonical]
    rw [ofJsons?_eq_mapM, toJsons_eq_map, mapM_map_eq_some_iff, allCanonical_iff]
    exact forall₂_congr ih

/-- Every literal is read back as some literal. -/
theorem isSome_ofJson?_toJson (l : Literal) : (ofJson? l.toJson).isSome := by
  induction l with
  | nil | bool | str | int | uint => rfl
  | float x =>
    unfold toJson Json.ofFloat
    split_ifs <;> rfl
  | list items ih =>
    simp only [toJson, ofJson?, Option.isSome_map, ofJsons?_eq_mapM, toJsons_eq_map]
    rw [isSome_mapM_iff]
    simpa using ih

theorem toJson_float {x : Float} (h : (Literal.float x).Canonical) :
    (Literal.float x).toJson = .float x := by
  have hfinite : x.isFinite = true := h
  rw [toJson, Json.ofFloat, if_pos hfinite]

theorem toJson_eq_null_iff {l : Literal} (h : l.Canonical) : l.toJson = .null ↔ l = .nil := by
  cases l with
  | float x => simp [toJson_float h]
  | _ => simp [toJson, Json.ofInt64, Json.ofUInt64]

end Literal

/-! ### Lists that read as nodes -/

theorem Json.isSome_item?_iff (read : Json → Option α) (items : List Json) (index : ℕ) :
    (item? read items index).isSome ↔ ∀ v ∈ items[index]?, v = .null ∨ (read v).isSome := by
  unfold item?
  split <;> simp_all

theorem Location.isSome_ofJson?_arr_iff (items : List Json) :
    (ofJson? (.arr items)).isSome ↔ items.length ≤ 5 ∧
      (∀ index < 4, (Json.item? Json.int64? items index).isSome) ∧
        (Json.item? Range.ofJson? items 4).isSome := by
  have hfour (P : ℕ → Prop) : (∀ index < 4, P index) ↔ P 0 ∧ P 1 ∧ P 2 ∧ P 3 := by
    constructor
    · intro h
      exact ⟨h 0 (by omega), h 1 (by omega), h 2 (by omega), h 3 (by omega)⟩
    · rintro ⟨h0, h1, h2, h3⟩ index hindex
      interval_cases index <;> assumption
  simp only [ofJson?, hfour]
  split_ifs with hlen
  · simp; omega
  · have hle : items.length ≤ 5 := by omega
    cases Json.item? Json.int64? items 0 <;> cases Json.item? Json.int64? items 1 <;>
      cases Json.item? Json.int64? items 2 <;> cases Json.item? Json.int64? items 3 <;>
        cases Json.item? Range.ofJson? items 4 <;> simp [hle]

namespace Literal

theorem isPlace_iff {l : Literal} (h : l.Canonical) :
    l.IsPlace ↔ l.toJson = .null ∨ l.toJson.int64?.isSome := by
  rw [toJson_eq_null_iff h]
  cases l with
  | uint n =>
    simp [IsPlace, toJson, Json.ofUInt64, Json.int64?, Json.Integer.isSome_toInt64?_ofUInt64]
  | float x => simp [IsPlace, toJson_float h, Json.int64?]
  | _ => simp [IsPlace, toJson, Json.ofInt64, Json.int64?]

theorem isOffset_iff {l : Literal} (h : l.Canonical) : l.IsOffset ↔ l.toJson.uint64?.isSome := by
  cases l with
  | int n =>
    simp [IsOffset, toJson, Json.ofInt64, Json.uint64?, Json.Integer.isSome_toUInt64?_ofInt64]
  | float x => simp [IsOffset, toJson_float h, Json.uint64?]
  | _ => simp [IsOffset, toJson, Json.ofUInt64, Json.uint64?]

theorem isRange_iff {l : Literal} (h : l.Canonical) :
    l.IsRange ↔ l.toJson = .null ∨ (Range.ofJson? l.toJson).isSome := by
  rw [toJson_eq_null_iff h]
  cases l with
  | list items =>
    match items with
    | [first, last] =>
      obtain ⟨hfirst, hlast, -⟩ : AllCanonical [first, last] := h
      simp only [IsRange, isOffset_iff hfirst, isOffset_iff hlast, toJson, toJsons, Range.ofJson?]
      cases first.toJson.uint64? <;> cases last.toJson.uint64? <;> simp
    | [] | [_] | _ :: _ :: _ :: _ => simp [IsRange, toJson, toJsons, Range.ofJson?]
  | float x => simp [IsRange, toJson_float h, Range.ofJson?]
  | _ => simp [IsRange, toJson, Json.ofInt64, Json.ofUInt64, Range.ofJson?]

theorem isSome_item?_toJsons_iff (read : Json → Option α) {P : Literal → Prop}
    {items : List Literal}
    (h : ∀ item ∈ items, P item ↔ item.toJson = .null ∨ (read item.toJson).isSome) (index : ℕ) :
    (Json.item? read (toJsons items) index).isSome ↔ ∀ item ∈ items[index]?, P item := by
  rw [Json.isSome_item?_iff, toJsons_eq_map, List.getElem?_map]
  cases hitem : items[index]? with
  | none => simp
  | some item => simp [h item (List.mem_of_getElem? hitem)]

theorem isLocation_iff {l : Literal} (h : l.Canonical) :
    l.IsLocation ↔ l.toJson = .null ∨ (Location.ofJson? l.toJson).isSome := by
  rw [toJson_eq_null_iff h]
  cases l with
  | list items =>
    have hcan := (allCanonical_iff items).mp h
    have hplace :=
      isSome_item?_toJsons_iff Json.int64? fun item hitem => isPlace_iff (hcan item hitem)
    have hrange :=
      isSome_item?_toJsons_iff Range.ofJson? fun item hitem => isRange_iff (hcan item hitem)
    simp only [IsLocation, toJson, Location.isSome_ofJson?_arr_iff, hplace, hrange]
    simp [toJsons_eq_map]
  | float x => simp [IsLocation, toJson_float h, Location.ofJson?]
  | _ => simp [IsLocation, toJson, Json.ofInt64, Json.ofUInt64, Location.ofJson?]

end Literal

namespace Tree

/-- What reads as a literal reads as a tree. -/
theorem isSome_ofJson?_of_literal {v : Json} (h : (Literal.ofJson? v).isSome) :
    (ofJson? v).isSome := by
  cases v with
  | obj entries => simp [Literal.ofJson?] at h
  | arr items =>
    unfold ofJson?
    split
    · rfl
    · simpa using h
  | _ => simp [ofJson?, Literal.ofJson?]

theorem ofJsons?_eq_mapM (items : List Json) : ofJsons? items = items.mapM ofJson? := by
  induction items with
  | nil => rfl
  | cons item items ih =>
    rw [ofJsons?, ih, List.mapM_cons]
    cases ofJson? item <;> cases items.mapM ofJson? <;> rfl

theorem isSome_ofJsons?_toJsons (items : List Literal) :
    (ofJsons? (Literal.toJsons items)).isSome := by
  rw [ofJsons?_eq_mapM, isSome_mapM_iff, Literal.toJsons_eq_map]
  intro v hv
  obtain ⟨item, -, rfl⟩ := List.mem_map.mp hv
  exact isSome_ofJson?_of_literal item.isSome_ofJson?_toJson

theorem isSome_children?_iff (l : Literal) :
    (children? l.toJson).isSome ↔ ∃ items, l = .list items := by
  cases l with
  | list items => simp [Literal.toJson, children?, isSome_ofJsons?_toJsons]
  | float x =>
    unfold Literal.toJson Json.ofFloat
    split_ifs <;> simp [children?]
  | _ => simp [Literal.toJson, Json.ofInt64, Json.ofUInt64, children?]

/-- A list literal reads as the parts of a node exactly if it has the shape of one. -/
theorem isSome_ofParts?_iff {items : List Literal} (h : Literal.AllCanonical items) :
    (ofParts? (Literal.toJsons items) (itemLists? (Literal.toJsons items))).isSome ↔
      (Literal.list items).NodeShaped := by
  match items, h with
  | [], _ => simp [Literal.toJsons, ofParts?, Literal.NodeShaped]
  | [.str s], _ => simp [Literal.toJsons, Literal.toJson, ofParts?, Literal.NodeShaped]
  | [.str s, l], _ =>
    have hshape : (Literal.list [.str s, l]).NodeShaped ↔ ∃ items, l = .list items := by
      cases l <;> simp [Literal.NodeShaped]
    rw [hshape, ← isSome_children?_iff]
    simp only [Literal.toJsons, Literal.toJson, itemLists?, ofParts?]
    cases children? l.toJson <;> simp
  | [.str s, l, location], ⟨_, _, hlocation, _⟩ =>
    have hshape : (Literal.list [.str s, l, location]).NodeShaped ↔
        (∃ items, l = .list items) ∧ location.IsLocation := by
      cases l <;> simp [Literal.NodeShaped]
    have hitem := Json.isSome_item?_iff Location.ofJson? [location.toJson] 0
    rw [hshape, ← isSome_children?_iff, Literal.isLocation_iff hlocation]
    simp only [Literal.toJsons, Literal.toJson, itemLists?, ofParts?]
    cases children? l.toJson <;> simp [hitem]
  | .str s :: _ :: _ :: _ :: _, _ =>
    simp [Literal.toJsons, Literal.toJson, ofParts?, Literal.NodeShaped]
  | .float x :: items, h =>
    simp [Literal.toJsons, Literal.toJson_float h.1, ofParts?, Literal.NodeShaped]
  | .nil :: items, _ | .bool b :: items, _ | .int n :: items, _ | .uint n :: items, _
  | .list is :: items, _ =>
    simp [Literal.toJsons, Literal.toJson, Json.ofInt64, Json.ofUInt64, ofParts?,
      Literal.NodeShaped]

theorem isNode_of_ofParts? {items : List Json} {lists : List (Option (List Tree))} {tree : Tree}
    (h : ofParts? items lists = some tree) : tree.isNode := by
  unfold ofParts? at h
  split at h
  · cases h; rfl
  · cases h; rfl
  · obtain ⟨location, -, rfl⟩ := Option.map_eq_some_iff.mp h
    rfl
  · cases h

/-- A literal that stands as a child is read back exactly if it is canonical and no list with the
shape of a node. -/
theorem ofJson?_toJson_literal_iff (l : Literal) :
    ofJson? l.toJson = some (.literal l) ↔ l.Canonical ∧ ¬ l.NodeShaped := by
  rw [← Literal.ofJson?_toJson_iff]
  cases l with
  | list items =>
    simp only [Literal.toJson, ofJson?]
    cases hparts : ofParts? (Literal.toJsons items) (itemLists? (Literal.toJsons items)) with
    | some tree =>
      have hnode := isNode_of_ofParts? hparts
      constructor
      · intro h
        cases h
        cases hnode
      · rintro ⟨hread, hshape⟩
        have hcan := (Literal.ofJson?_toJson_iff (.list items)).mp hread
        exact absurd ((isSome_ofParts?_iff hcan).mp (by rw [hparts]; rfl)) hshape
    | none =>
      simp only [Option.map_eq_some_iff, literal.injEq, exists_eq_right, iff_self_and]
      intro hread hshape
      have hcan := (Literal.ofJson?_toJson_iff (.list items)).mp hread
      have := (isSome_ofParts?_iff hcan).mpr hshape
      rw [hparts] at this
      cases this
  | float x =>
    unfold Literal.toJson Json.ofFloat
    split_ifs <;> simp [ofJson?, Literal.ofJson?, Literal.NodeShaped]
  | _ => simp [Literal.toJson, Json.ofInt64, Json.ofUInt64, ofJson?, Literal.ofJson?,
      Literal.NodeShaped]

end Tree

/-! ### Nodes -/

namespace Json

theorem occurrences_part (key other : String) (write : α → Json) (a : Option α) :
    occurrences key (Location.part other write a) =
      if other = key then (a.map write).toList else [] := by
  cases a <;> simp [Location.part, occurrences]
  split_ifs <;> simp_all

theorem optional?_eq_some {read : Json → Option α} {write : α → Json} {key : String}
    {entries : List (String × Json)} {a : Option α}
    (h : occurrences key entries = (a.map write).toList)
    (hwrite : ∀ b, write b ≠ .null ∧ read (write b) = some b) :
    optional? read key entries = some a := by
  unfold optional?
  cases a with
  | none => simp [h]
  | some b => simp [h, (hwrite b).1, (hwrite b).2]

theorem int64?_ofInt64 (n : Int64) : ofInt64 n ≠ .null ∧ (ofInt64 n).int64? = some n := by
  simp [ofInt64, int64?]

end Json

theorem Range.ofJson?_toJson (range : Range) :
    range.toJson ≠ .null ∧ ofJson? range.toJson = some range := by
  simp [toJson, ofJson?, Json.required?, Json.occurrences, Json.ofUInt64, Json.uint64?]

theorem Location.ofJson?_toJson (location : Location) :
    location.toJson ≠ .null ∧ ofJson? location.toJson = some location := by
  refine ⟨by simp [toJson], ?_⟩
  simp only [toJson, ofJson?]
  set entries := part "line" .ofInt64 location.line ++ part "column" .ofInt64 location.column ++
    part "last_line" .ofInt64 location.lastLine ++
    part "last_column" .ofInt64 location.lastColumn ++
    part "expression" Range.toJson location.expression with hentries
  have hline : Json.optional? Json.int64? "line" entries = some location.line :=
    Json.optional?_eq_some (by simp [hentries, Json.occurrences_part]) Json.int64?_ofInt64
  have hcolumn : Json.optional? Json.int64? "column" entries = some location.column :=
    Json.optional?_eq_some (by simp [hentries, Json.occurrences_part]) Json.int64?_ofInt64
  have hlastLine : Json.optional? Json.int64? "last_line" entries = some location.lastLine :=
    Json.optional?_eq_some (by simp [hentries, Json.occurrences_part]) Json.int64?_ofInt64
  have hlastColumn : Json.optional? Json.int64? "last_column" entries = some location.lastColumn :=
    Json.optional?_eq_some (by simp [hentries, Json.occurrences_part]) Json.int64?_ofInt64
  have hexpression : Json.optional? Range.ofJson? "expression" entries = some location.expression :=
    Json.optional?_eq_some (by simp [hentries, Json.occurrences_part]) Range.ofJson?_toJson
  rw [hline, hcolumn, hlastLine, hlastColumn, hexpression]
  rfl

namespace Tree

/-- A node is read back up to what becomes of its kind and its children. -/
theorem ofJson?_toJson_node (kind : Kind) (children : List Tree) (location : Option Location) :
    ofJson? (node kind children location).toJson =
      (ofJsons? (toJsons children)).map fun children =>
        .node (.ofName kind.name) children location := by
  have hlocation : Json.optional? Location.ofJson? "location"
      ([("type", .str kind.name), ("children", .arr (toJsons children))] ++
        Location.part "location" Location.toJson location) = some location :=
    Json.optional?_eq_some (by simp [Json.occurrences_part]) Location.ofJson?_toJson
  simp only [toJson, ofJson?, ofEntries?, hlocation]
  cases location <;> cases hread : ofJsons? (toJsons children) <;>
    simp [Location.part, entryLists?, children?, hread]

theorem toJsons_eq_map (trees : List Tree) : toJsons trees = trees.map toJson := by
  induction trees with
  | nil => rfl
  | cons tree trees ih => rw [toJsons, ih, List.map_cons]

theorem allCanonical_iff (trees : List Tree) :
    AllCanonical trees ↔ ∀ tree ∈ trees, tree.Canonical := by
  induction trees with
  | nil => simp [AllCanonical]
  | cons tree trees ih => simp [AllCanonical, ih]

/-- **A tree is read back from the value it is written as exactly if it is canonical.** -/
theorem ofJson?_toJson_eq_some_iff (tree : Tree) :
    ofJson? tree.toJson = some tree ↔ tree.Canonical := by
  induction tree with
  | literal value =>
    simp only [toJson, Canonical]
    exact ofJson?_toJson_literal_iff value
  | node kind children location ih =>
    have hchildren : ofJsons? (toJsons children) = some children ↔ AllCanonical children := by
      rw [ofJsons?_eq_mapM, toJsons_eq_map, mapM_map_eq_some_iff, allCanonical_iff]
      exact forall₂_congr ih
    rw [ofJson?_toJson_node, Canonical, ← hchildren, ← Kind.ofName_name_eq_iff]
    cases ofJsons? (toJsons children) <;> simp

/-- Two offsets in the place of a range make a list the parts of a node; a negative one does not. -/
example :
    ¬ Canonical (.literal (.list [.str "int", .list [],
      .list [.nil, .nil, .nil, .nil, .list [.int 0, .int 7]]])) ∧
    Canonical (.literal (.list [.str "int", .list [],
      .list [.nil, .nil, .nil, .nil, .list [.int 0, .int (-7)]]])) := by
  decide

end Tree

end NamedTree
