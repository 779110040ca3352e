import NamedTree.Proofs.Convert.Lossless
import NamedTree.Proofs.Convert.Pruning
import NamedTree.Proofs.Convert.ReadBack
import NamedTree.Proofs.Kind.Fields
import NamedTree.Proofs.Tree.RoundTrip

/-! # The keys of every object of a document

A document is written with two kinds of objects: those of its nodes and those of their meta data
(`Tree.exists_of_mem_objects_levels`, by induction on the tree). The object of a node has the keys
that are declared for its kind (`Kind.keys`): an optional field is left out exactly if its child is
not present, every other field is there however few children the node has, and no key is there
twice. -/

namespace NamedTree

/-! ### The objects of a value -/

namespace Json

mutual
/-- The entries of the objects in a value, each object before those inside it. -/
def objects : Json → List (List (String × Json))
  | .obj entries => entries :: entryObjects entries
  | .arr items => itemObjects items
  | .null | .bool _ | .int _ | .float _ | .str _ => []

/-- The entries of the objects in a list of values. -/
def itemObjects : List Json → List (List (String × Json))
  | [] => []
  | item :: items => objects item ++ itemObjects items

/-- The entries of the objects in the entries of an object. -/
def entryObjects : List (String × Json) → List (List (String × Json))
  | [] => []
  | (_, v) :: entries => objects v ++ entryObjects entries
end

theorem objects_arr (items : List Json) : objects (.arr items) = items.flatMap objects := by
  rw [objects]
  induction items with
  | nil => rw [itemObjects, List.flatMap_nil]
  | cons item items ih => rw [itemObjects, ih, List.flatMap_cons]

theorem objects_obj (entries : List (String × Json)) :
    objects (.obj entries) = entries :: entries.flatMap fun entry => objects entry.2 := by
  have hentries : entryObjects entries = entries.flatMap fun entry => objects entry.2 := by
    induction entries with
    | nil => rw [entryObjects, List.flatMap_nil]
    | cons entry entries ih => rw [entryObjects, ih, List.flatMap_cons]
  rw [objects, hentries]

end Json

theorem Literal.objects_toJson (value : Literal) : value.toJson.objects = [] := by
  induction value with
  | list items ih =>
    rw [toJson, Json.objects_arr, toJsons_eq_map, List.flatMap_map, List.flatMap_eq_nil_iff]
    exact ih
  | float x =>
    rw [toJson, Json.ofFloat]
    split_ifs <;> rw [Json.objects]
  | _ => rw [toJson]; first | rw [Json.objects] | rfl

/-- Meta data is one object. -/
theorem MetaData.eq_of_mem_objects {m : MetaData} {entries : List (String × Json)}
    (h : entries ∈ m.toJson.objects) : m.toJson = .obj entries := by
  obtain ⟨_, _, _, _, offsetStart, offsetEnd, code⟩ := m
  rw [toJson, Json.objects_obj] at h
  rw [toJson]
  cases offsetStart <;> cases offsetEnd <;> cases code <;>
    simpa [Json.ofInt64, Json.ofUInt64, Json.ofOption, Json.objects, eq_comm] using h

namespace Converted

/-- The entries of the objects that are written for what stands in a place. -/
def objects (c : Converted) : List (List (String × Json)) := c.toJson.objects

theorem objects_list (cs : List Converted) : objects (.list cs) = cs.flatMap objects := by
  rw [objects, toJson, Json.objects_arr, toJsons_eq_map, List.flatMap_map]
  rfl

theorem objects_literal (value : Literal) : objects (.literal value) = [] := by
  rw [objects, toJson, value.objects_toJson]

/-- A node is an object, with its meta data and what its places hold inside. -/
theorem objects_node (output : OutputNode) :
    objects (.node output) = (output.header ++ output.body.entries toJson) ::
      (output.metaData.toJson.objects ++ output.body.contents objects) := by
  have hheader : output.header.flatMap (fun entry => entry.2.objects) =
      output.metaData.toJson.objects := by
    simp [NodeOf.header, Json.objects]
  rw [objects, toJson, OutputNode.toJson_eq, Json.objects_obj, List.flatMap_append, hheader,
    Body.contents]
  cases output.body with
  | fields entries =>
    simp only [Body.entries, Body.places, List.flatMap_map]
    rfl
  | children items =>
    simp only [Body.entries, Body.places, List.flatMap_singleton, Json.objects_arr,
      List.flatMap_map]
    rfl
  | nested => simp [Body.entries, Body.places, Json.objects]

end Converted

/-- Every object of a document is that of a node, converted where it stands, or its meta data. -/
theorem Tree.exists_of_mem_objects_levels (source : String) (left : ℕ) (tree : Tree)
    {entries : List (String × Json)} (h : entries ∈ (tree.levels source left).objects) :
    ∃ address kind children location, tree.at? address = some (.node kind children location) ∧
      address.length ≤ left ∧ ((MetaData.ofLocation source location).toJson = .obj entries ∨
        ((Tree.node kind children location).levels source (left - address.length)).toJson =
          .obj entries) := by
  induction tree generalizing left with
  | literal value =>
    rw [levels_literal, Converted.objects_literal] at h
    cases h
  | node kind children location ih =>
    obtain ⟨out, hout⟩ := exists_levels_node source left kind children location
    rw [hout, Converted.objects_node] at h
    rcases List.mem_cons.mp h with rfl | h
    · refine ⟨[], kind, children, location, rfl, Nat.zero_le _, Or.inr ?_⟩
      rw [List.length_nil, Nat.sub_zero, hout, Converted.toJson, OutputNode.toJson_eq]
    rcases List.mem_append.mp h with h | h
    · have hmeta : out.metaData = .ofLocation source location := by
        cases left <;> cases hout <;> rfl
      rw [hmeta] at h
      exact ⟨[], kind, children, location, rfl, Nat.zero_le _,
        Or.inl (MetaData.eq_of_mem_objects h)⟩
    cases left with
    | zero =>
      cases hout
      cases h
    | succ left =>
      have hsub := Layout.contents_apply_sublist Converted.objects_list
        (Converted.objects_literal .nil) kind.layout
        (fun value _ => Converted.objects_literal value) (children.map (levels source left))
      have hbody : out.body = kind.layout.apply (children.map (levels source left)) := by
        cases hout
        rw [allLevels_eq_map]
      rw [hbody] at h
      obtain ⟨c, hc, hentries⟩ := List.mem_flatMap.mp (hsub.subset h)
      obtain ⟨child, hchild, rfl⟩ := List.mem_map.mp hc
      obtain ⟨address, kind', children', location', hat, hlength, hobject⟩ :=
        ih child hchild left hentries
      obtain ⟨index, hindex⟩ := List.getElem?_of_mem hchild
      refine ⟨index :: address, kind', children', location', ?_, ?_, ?_⟩
      · rw [at?, hindex]
        exact hat
      · rw [List.length_cons]
        omega
      · rw [List.length_cons, Nat.add_sub_add_right]
        exact hobject

/-! ### The keys that are declared -/

section Declared
variable {α β : Type}

/-- The keys for children under the given fields; without fields they stand under `children`. -/
def FieldDecl.keys (present : α → Bool) (cs : List α) : Option (List FieldDecl) → List String
  | none => ["children"]
  | some fields => (fields.filter (·.written.holds present cs)).map FieldDecl.name

/-- The keys of a node after those that every node has, by its kind and children. -/
def Kind.keys (kind : Kind) (present : α → Bool) (cs : List α) : List String :=
  FieldDecl.keys present cs kind.fields?

theorem Kind.keys_map {present : α → Bool} {present' : β → Bool} {f : α → β}
    (hpresent : ∀ c, present' (f c) = present c) (kind : Kind) (cs : List α) :
    kind.keys present' (cs.map f) = kind.keys present cs := by
  unfold keys
  cases kind.fields? with
  | none => rfl
  | some fields =>
    simp only [FieldDecl.keys, Written.holds_map hpresent]

/-- Declared keys are distinct, also from those that every node has. -/
theorem Kind.nodup_keys (kind : Kind) (present : α → Bool) (cs : List α) :
    ("type" :: "meta_data" :: kind.keys present cs).Nodup := by
  unfold keys
  cases hfields : kind.fields? with
  | none => simp [FieldDecl.keys]
  | some fields =>
    have hsub : ((fields.filter (·.written.holds present cs)).map FieldDecl.name).Sublist
        (fields.map FieldDecl.name) := List.filter_sublist.map _
    exact ((hsub.cons_cons "meta_data").cons_cons "type").nodup (nodup_fields hfields)

/-- A required field is among the declared keys. -/
theorem Kind.name_mem_keys {kind : Kind} {fields : List FieldDecl} {field : FieldDecl}
    (hfields : kind.fields? = some fields) (hfield : field ∈ fields)
    (halways : field.written = .always) (present : α → Bool) (cs : List α) :
    field.name ∈ kind.keys present cs := by
  rw [keys, hfields, FieldDecl.keys]
  refine List.mem_map_of_mem (List.mem_filter.mpr ⟨hfield, ?_⟩)
  rw [halways, Written.holds_always]

end Declared

/-! ### The keys that a layout writes -/

theorem map_filter_eq_flatten {α β : Type} (p : α → Bool) (f : α → β) (items : List α) :
    (items.filter p).map f = (items.map fun x => if p x then [f x] else []).flatten := by
  induction items with
  | nil => rfl
  | cons x items ih =>
    rw [List.map_cons, List.flatten_cons, ← ih]
    cases hx : p x <;> simp [hx]

namespace Layout
open Converted

theorem name_slotField (index : ℕ) (slot : Slot) : (slotField index slot).name = slot.name := by
  unfold slotField
  split_ifs <;> rfl

/-- A slot is written as its field is declared. -/
theorem map_fst_entry (slot : Slot) (index : ℕ) (cs : List Converted) :
    (slot.entry (cs[index]?.getD absent)).map (·.1) =
      if (slotField index slot).written.holds present cs then [(slotField index slot).name]
      else [] := by
  rw [name_slotField]
  unfold Slot.entry slotField
  cases hslot : slot.optional with
  | false => simp
  | true =>
    cases hc : cs[index]? with
    | none => simp [Written.holds, hc]
    | some c =>
      cases hpresent : c.present <;> simp [Written.holds, hc, hpresent]

/-- Each slot takes the child at its own position. -/
theorem fill_eq_flatten_mapIdx (places : List Slot) (cs : List Converted) :
    fill places cs =
      (places.mapIdx fun index place => place.entry (cs[index]?.getD absent)).flatten := by
  fun_induction fill places cs with
  | case1 cs => rfl
  | case2 place places ih => rw [List.mapIdx_cons, List.flatten_cons, ih]; rfl
  | case3 place places c cs ih => rw [List.mapIdx_cons, List.flatten_cons, ih]; rfl

theorem keys_fill (places : List Slot) (cs : List Converted) :
    (fill places cs).map (·.1) = FieldDecl.keys present cs (some (places.mapIdx slotField)) := by
  rw [fill_eq_flatten_mapIdx, FieldDecl.keys, map_filter_eq_flatten, List.map_flatten]
  simp only [List.mapIdx_eq_zipIdx_map, List.map_map, Function.comp_def, map_fst_entry]

theorem keys_always {fields : List FieldDecl} (h : ∀ field ∈ fields, field.written = .always)
    (cs : List Converted) :
    FieldDecl.keys present cs (some fields) = fields.map FieldDecl.name := by
  have hfilter : fields.filter (·.written.holds present cs) = fields := by
    rw [List.filter_eq_self]
    intro field hfield
    rw [h field hfield, Written.holds_always]
  rw [FieldDecl.keys, hfilter]

theorem map_fst_fill_required (names : List String) (cs : List Converted) :
    (fill (names.map fun name => ⟨name, false⟩) cs).map (·.1) = names := by
  induction names generalizing cs with
  | nil => rfl
  | cons name names ih => cases cs <;> simp [fill, Slot.entry, ih]

theorem written_map_one (names : List String) :
    ∀ field ∈ names.map FieldDecl.one, field.written = .always := by
  intro field hfield
  obtain ⟨name, -, rfl⟩ := List.mem_map.mp hfield
  rfl

theorem keys_dispatch (head middle : String) (cs : List Converted) :
    (((dispatch head middle).apply cs).entries toJson).map (·.1) =
      FieldDecl.keys present cs (dispatch head middle).fields? := by
  rcases nil_or_singleton_or_first_last cs with rfl | ⟨c, rfl⟩ | ⟨first, items, last, rfl⟩
  · simp [apply, Slot.entry, Body.entries, fields?, FieldDecl.keys, Written.holds]
  · simp [apply, Slot.entry, Body.entries, fields?, FieldDecl.keys, Written.holds]
  · have hlast := getLast?_cons_concat first last items
    cases hpresent : last.present <;>
      simp [apply, Slot.entry, Body.entries, fields?, FieldDecl.keys, Written.holds,
        hlast, hpresent]

/-- **A layout writes the keys that it declares.** -/
theorem keys_apply (layout : Layout) (cs : List Converted) :
    ((layout.apply cs).entries toJson).map (·.1) = FieldDecl.keys present cs layout.fields? := by
  cases layout with
  | slots places =>
    rw [fields?, ← keys_fill, apply, Body.entries, List.map_map]
    rfl
  | everything name => rfl
  | leading names others =>
    have halways : ∀ field ∈ names.map FieldDecl.one ++ [.gathered others],
        field.written = .always := by
      intro field hfield
      rcases List.mem_append.mp hfield with hfield | hfield
      · exact written_map_one names field hfield
      · rw [List.mem_singleton.mp hfield]
        rfl
    have hfill := map_fst_fill_required names cs
    rw [fields?, keys_always halways, apply, Body.entries, List.map_map]
    simpa [Function.comp_def] using hfill
  | dispatch head middle => exact keys_dispatch head middle cs
  | initAndLast initial last => rfl
  | whenPresent name =>
    have hhead : cs[0]?.any present = (cs.headD absent).present := by
      cases cs <;> rfl
    simp only [fields?, FieldDecl.keys, List.filter, Written.holds, hhead, apply]
    cases (cs.headD absent).present <;> rfl
  | constants entries =>
    have hkeys := keys_always (written_map_one (entries.map (·.1))) cs
    rw [List.map_map] at hkeys
    rw [fields?, apply, Body.entries]
    refine Eq.trans ?_ hkeys.symm
    simp [Function.comp_def]
  | children => rfl

end Layout

/-- The keys of the body of a node are the ones declared for its kind. -/
theorem Kind.keys_apply (kind : Kind) (cs : List Converted) :
    ((kind.layout.apply cs).entries Converted.toJson).map (·.1) =
      kind.keys Converted.present cs := by
  rw [keys, fields?_eq, Layout.keys_apply]

/-! ### The object of a node -/

/-- What the object of a node holds after its kind and meta data. -/
theorem Tree.exists_toJson_levels (source : String) (left : ℕ) (kind : Kind) (children : List Tree)
    (location : Option Location) :
    ∃ rest, ((Tree.node kind children location).levels source left).toJson =
        .obj (("type", .str kind.name) ::
          ("meta_data", (MetaData.ofLocation source location).toJson) :: rest) ∧
      rest.map (·.1) = if left = 0 then ["nested"] else kind.keys Tree.present children := by
  cases left with
  | zero =>
    refine ⟨[("nested", .bool true)], ?_, rfl⟩
    rw [levels_zero_node, Converted.toJson, OutputNode.toJson_eq]
    rfl
  | succ left =>
    refine ⟨(kind.layout.apply (children.map (levels source left))).entries Converted.toJson,
      ?_, ?_⟩
    · rw [levels_succ_node, Converted.toJson, OutputNode.toJson_eq]
      rfl
    · rw [if_neg (Nat.succ_ne_zero left), Kind.keys_apply,
        Kind.keys_map (present_levels source left)]

/-- The object of a node that stands at a depth: it says what the node is and where it comes from,
and then what is declared for its kind, or that it is cut off. -/
structure IsNodeObject (ctx : Context) (depth : ℕ) (kind : Kind) (children : List Tree)
    (location : Option Location) (entries : List (String × Json)) : Prop where
  converted : (convertTree ctx (.ofNat depth) (.node kind children location)).1.toJson =
    .obj entries
  header : entries.take 2 = [("type", .str kind.name),
    ("meta_data", (MetaData.ofLocation ctx.source location).toJson)]
  keys : entries.map (·.1) = "type" :: "meta_data" ::
    if ctx.maxDepth.toNat ≤ depth then ["nested"] else kind.keys Tree.present children
  unnamed : depth < ctx.maxDepth.toNat → kind.category = .collection ∨ kind.category = .fallback →
    entries.map (·.1) = ["type", "meta_data", "children"]
  required : depth < ctx.maxDepth.toNat → ∀ fields ∈ kind.fields?, ∀ field ∈ fields,
    field.written = .always → field.name ∈ entries.map (·.1)

section NodeObject
variable {ctx : Context} {depth : ℕ} {kind : Kind} {children : List Tree}
  {location : Option Location} {entries : List (String × Json)}

theorem isNodeObject_of_levels (hdepth : depth < 2 ^ 64)
    (h : ((Tree.node kind children location).levels ctx.source
      (ctx.maxDepth.toNat - depth)).toJson = .obj entries) :
    IsNodeObject ctx depth kind children location entries := by
  obtain ⟨rest, hrest, hkeys⟩ := Tree.exists_toJson_levels ctx.source (ctx.maxDepth.toNat - depth)
    kind children location
  obtain rfl : entries = ("type", .str kind.name) ::
      ("meta_data", (MetaData.ofLocation ctx.source location).toJson) :: rest :=
    Json.obj.inj (h.symm.trans hrest)
  simp only [Nat.sub_eq_zero_iff_le] at hkeys
  refine ⟨?_, rfl, ?_, ?_, ?_⟩
  · have htoNat : (UInt64.ofNat depth).toNat = depth := by
      rw [UInt64.toNat_ofNat']
      exact Nat.mod_eq_of_lt hdepth
    rw [convertTree_fst, htoNat, h]
  · rw [List.map_cons, List.map_cons, hkeys]
  · intro hlimit hcategory
    rw [List.map_cons, List.map_cons, hkeys, if_neg (Nat.not_le.mpr hlimit), Kind.keys,
      kind.fields?_eq_none_iff.mpr hcategory]
    rfl
  · intro hlimit fields hfields field hfield halways
    rw [if_neg (Nat.not_le.mpr hlimit)] at hkeys
    have hname := Kind.name_mem_keys hfields hfield halways Tree.present children
    rw [List.map_cons, List.map_cons, hkeys]
    exact List.mem_cons_of_mem _ (List.mem_cons_of_mem _ hname)

theorem IsNodeObject.nodup_keys (h : IsNodeObject ctx depth kind children location entries) :
    (entries.map (·.1)).Nodup := by
  rw [h.keys]
  split_ifs
  · decide
  · exact kind.nodup_keys Tree.present children

end NodeObject

theorem MetaData.keys_toJson {m : MetaData} {entries : List (String × Json)}
    (h : m.toJson = .obj entries) : entries.map (·.1) = ["start_line", "start_column", "end_line",
      "end_column", "offset_start", "offset_end", "code"] := by
  rw [toJson] at h
  cases h
  rfl

theorem Tree.objects_convert (ctx : Context) (depth : UInt64) (tree : Tree) :
    (Json.ofOption OutputNode.toJson (tree.convert ctx depth).1).objects =
      (tree.levels ctx.source (ctx.maxDepth.toNat - depth.toNat)).objects := by
  rw [convert, convertTree_fst]
  cases tree with
  | literal value =>
    rw [levels_literal, Converted.objects_literal]
    simp [Converted.asNode, Json.ofOption, Json.objects]
  | node kind children location =>
    obtain ⟨out, hout⟩ := exists_levels_node ctx.source (ctx.maxDepth.toNat - depth.toNat) kind
      children location
    rw [hout, Converted.asNode, Json.ofOption, Converted.objects, Converted.toJson]

/-- **Every object of a document has the keys that are declared for it, each once.** It is the
object of a node of the tree, converted at the depth where it stands, or the meta data of one. -/
theorem Tree.keys_of_mem_objects_convert (ctx : Context) (depth : UInt64) (tree : Tree)
    {entries : List (String × Json)}
    (h : entries ∈ (Json.ofOption OutputNode.toJson (tree.convert ctx depth).1).objects) :
    (entries.map (·.1)).Nodup ∧ ∃ address kind children location,
      tree.at? address = some (.node kind children location) ∧
        (IsNodeObject ctx (depth.toNat + address.length) kind children location entries ∨
          (MetaData.ofLocation ctx.source location).toJson = .obj entries ∧
            entries.map (·.1) = ["start_line", "start_column", "end_line", "end_column",
              "offset_start", "offset_end", "code"]) := by
  rw [objects_convert] at h
  obtain ⟨address, kind, children, location, hat, hlength, hobject⟩ :=
    exists_of_mem_objects_levels ctx.source _ tree h
  rcases hobject with hmeta | hnode
  · have hkeys := MetaData.keys_toJson hmeta
    have hdistinct : (entries.map (·.1)).Nodup := by rw [hkeys]; decide
    exact ⟨hdistinct, address, kind, children, location, hat, Or.inr ⟨hmeta, hkeys⟩⟩
  · have hdepth : depth.toNat + address.length < 2 ^ 64 := by
      have := depth.toNat_lt
      have := ctx.maxDepth.toNat_lt
      omega
    rw [Nat.sub_sub] at hnode
    have hdeclared := isNodeObject_of_levels hdepth hnode
    exact ⟨hdeclared.nodup_keys, address, kind, children, location, hat, Or.inl hdeclared⟩

/-- A condition with one child: the branch that is always written is there, the optional one is
not. -/
theorem Tree.keys_of_mem_objects_if :
    ∃ entries ∈ (Json.ofOption OutputNode.toJson (Tree.convert {} 0 (.node (.ofName "if")
        [.literal (.str "c")] none)).1).objects,
      (entries.map (·.1)).Nodup ∧
        entries.map (·.1) = ["type", "meta_data", "condition", "then_branch"] := by
  have hkeys : (Kind.ofName "if").keys Tree.present [.literal (.str "c")] =
      ["condition", "then_branch"] := by
    decide +kernel
  obtain ⟨rest, hrest, hrestKeys⟩ := exists_toJson_levels "" 100 (.ofName "if")
    [.literal (.str "c")] none
  have hmem : ("type", .str (Kind.ofName "if").name) ::
      ("meta_data", (MetaData.ofLocation "" none).toJson) :: rest ∈
        (Json.ofOption OutputNode.toJson (Tree.convert {} 0 (.node (.ofName "if")
          [.literal (.str "c")] none)).1).objects := by
    have hobjects := Json.objects_obj (("type", .str (Kind.ofName "if").name) ::
      ("meta_data", (MetaData.ofLocation "" none).toJson) :: rest)
    rw [← hrest] at hobjects
    rw [objects_convert]
    exact List.mem_of_mem_head? (congrArg List.head? hobjects)
  refine ⟨_, hmem, (keys_of_mem_objects_convert {} 0 _ hmem).1, ?_⟩
  rw [List.map_cons, List.map_cons, hrestKeys, if_neg (by decide), hkeys]

end NamedTree
