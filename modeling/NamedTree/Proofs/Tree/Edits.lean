import NamedTree.Proofs.Json.Parts
import NamedTree.Proofs.Tree.Lists
import Mathlib.Logic.Relation

/-! # Reading ignores the order of keys and unknown keys

What a value is read as depends on where it stands: it has a *role* (`Json.Role`), which says by
which keys an object is read (`Role.keys`) and which roles the parts of the value have. Two kinds of
*edits* do not matter (`Json.Edit`): putting the entries of an object in another order, and inserting
or deleting an entry under a key that the object is not read by, at any depth. A value reads as the
same tree after any number of edits, and one that is refused is refused after them
(`ofJson?_eq_of_edits`).

One edit changes one object, and every reading of a list or an object goes part by part. So the
induction over the depth of the edit (`Edit.sameReading`) asks two things. For objects: what the
entries give to each known key is read alike (`Alike`). For lists: the items are read alike at each
place. An edited value holds an object, so that a list with an edit inside is no literal before or
after the edit. -/

namespace NamedTree

namespace Json

/-- What a value is read as. A `plain` value is not read by keys. -/
inductive Role where
  | tree
  | children
  | location
  | range
  | plain
deriving DecidableEq

namespace Role

/-- The keys that an object is read by. -/
def keys : Role → List String
  | .tree => ["type", "children", "location"]
  | .location => ["line", "column", "last_line", "last_column", "expression"]
  | .range => ["begin_pos", "end_pos"]
  | .children | .plain => []

/-- The role of the value under a key of an object. -/
def ofKey : Role → String → Role
  | .tree, "children" => .children
  | .tree, "location" => .location
  | .location, "expression" => .range
  | _, _ => .plain

/-- The role of the item at a place of a list. -/
def ofIndex : Role → ℕ → Role
  | .tree, 1 => .children
  | .tree, 2 => .location
  | .children, _ => .tree
  | .location, 4 => .range
  | _, _ => .plain

end Role

/-- One change, at any depth, that reading does not see. -/
inductive Edit : Role → Json → Json → Prop
  | permute {role : Role} {entries entries' : List (String × Json)} (h : entries.Perm entries') :
      Edit role (.obj entries) (.obj entries')
  | insert {role : Role} (before after : List (String × Json)) (key : String) (v : Json)
      (h : key ∉ role.keys) :
      Edit role (.obj (before ++ after)) (.obj (before ++ (key, v) :: after))
  | delete {role : Role} (before after : List (String × Json)) (key : String) (v : Json)
      (h : key ∉ role.keys) :
      Edit role (.obj (before ++ (key, v) :: after)) (.obj (before ++ after))
  | entry {role : Role} (before after : List (String × Json)) (key : String) {v v' : Json}
      (h : Edit (role.ofKey key) v v') :
      Edit role (.obj (before ++ (key, v) :: after)) (.obj (before ++ (key, v') :: after))
  | item {role : Role} (before after : List Json) {v v' : Json}
      (h : Edit (role.ofIndex before.length) v v') :
      Edit role (.arr (before ++ v :: after)) (.arr (before ++ v' :: after))

/-- Two values that read the same in a role. -/
def SameReading : Role → Json → Json → Prop
  | .tree, v, v' => Tree.ofJson? v = Tree.ofJson? v'
  | .children, v, v' => Tree.children? v = Tree.children? v'
  | .location, v, v' => Location.ofJson? v = Location.ofJson? v'
  | .range, v, v' => Range.ofJson? v = Range.ofJson? v'
  | .plain, _, _ => True

theorem SameReading.refl (role : Role) (v : Json) : SameReading role v v := by
  cases role <;> first | exact rfl | trivial

/-- Whether a value is a list or an object. -/
def isContainer : Json → Bool
  | .arr _ | .obj _ => true
  | _ => false

/-- Two values of which either may stand for the other in a role. -/
def Interchangeable (role : Role) (v v' : Json) : Prop :=
  v = v' ∨ v.isContainer = true ∧ v'.isContainer = true ∧ SameReading role v v'

/-! ### Edited values -/

theorem Edit.isContainer {role : Role} {v v' : Json} (h : Edit role v v') :
    v.isContainer = true ∧ v'.isContainer = true := by
  cases h <;> exact ⟨rfl, rfl⟩

theorem Edit.interchangeable {role : Role} {v v' : Json} (h : Edit role v v')
    (hsame : SameReading role v v') : Interchangeable role v v' :=
  Or.inr ⟨h.isContainer.1, h.isContainer.2, hsame⟩

/-- An edit takes place inside an object. -/
theorem Edit.not_objectFree {role : Role} {v v' : Json} (h : Edit role v v') :
    ¬ v.ObjectFree ∧ ¬ v'.ObjectFree := by
  induction h with
  | permute | insert | delete | entry => exact ⟨id, id⟩
  | item before after h ih =>
    obtain ⟨hv, hv'⟩ := ih
    rw [objectFree_arr_iff, objectFree_arr_iff]
    refine ⟨fun hfree => ?_, fun hfree => ?_⟩
    · exact hv (hfree _ (by simp))
    · exact hv' (hfree _ (by simp))

theorem int64?_of_isContainer {v : Json} (h : v.isContainer = true) : v.int64? = none := by
  cases v with
  | arr | obj => rfl
  | _ => cases h

theorem uint64?_of_isContainer {v : Json} (h : v.isContainer = true) : v.uint64? = none := by
  cases v with
  | arr | obj => rfl
  | _ => cases h

theorem text?_of_isContainer {v : Json} (h : v.isContainer = true) : v.text? = none := by
  refine text?_eq_none fun s hs => ?_
  rw [hs] at h
  cases h

theorem Interchangeable.refl (role : Role) (v : Json) : Interchangeable role v v := Or.inl rfl

section Interchangeable
variable {role : Role} {v v' : Json} (h : Interchangeable role v v')
include h

theorem Interchangeable.sameReading : SameReading role v v' := by
  rcases h with rfl | ⟨-, -, h⟩
  · exact .refl role v
  · exact h

theorem Interchangeable.null_iff : v = .null ↔ v' = .null := by
  rcases h with rfl | ⟨hv, hv', -⟩
  · exact Iff.rfl
  · constructor
    · rintro rfl
      cases hv
    · rintro rfl
      cases hv'

/-- What no list and no object can be read as is read the same. -/
theorem Interchangeable.read_eq {read : Json → Option α}
    (hread : ∀ {v}, v.isContainer = true → read v = none) : read v = read v' := by
  rcases h with rfl | ⟨hv, hv', -⟩
  · rfl
  · rw [hread hv, hread hv']

end Interchangeable

end Json

/-! ### Reading the parts of a node -/

namespace Tree

/-- The children of a node, given what stands under their key. -/
def listed? : List (Option (List Tree)) → Option (List Tree)
  | [] => some []
  | [children] => children
  | _ => none

theorem listed?_congr {lists lists' : List (Option (List Tree))}
    (h : Json.Alike (· = ·) lists lists') : listed? lists = listed? lists' := by
  cases h with
  | missing => rfl
  | once h => rw [h]
  | repeated => rfl

/-- An object is read by its three keys. -/
theorem ofEntries?_eq (entries : List (String × Json)) :
    ofEntries? entries (entryLists? entries) =
      (Json.required? Json.text? "type" entries).bind fun name =>
        (listed? ((Json.occurrences "children" entries).map children?)).bind fun children =>
          (Json.optional? Location.ofJson? "location" entries).map fun location =>
            .node (.ofName name) children location := by
  rw [entryLists?_eq_map, ofEntries?, Json.occurrences_map, Json.required?]
  rcases Json.occurrences "type" entries with _ | ⟨v, _ | ⟨w, vs⟩⟩
  · rfl
  · cases v with
    | str name =>
      rcases (Json.occurrences "children" entries).map children? with _ | ⟨_ | _, _ | _⟩ <;>
        cases Json.optional? Location.ofJson? "location" entries <;> rfl
    | _ => rfl
  · cases v <;> rfl

/-- A list of at most three parts is read by its three places. -/
theorem ofParts?_eq {items : List Json} (h : items.length ≤ 3) :
    ofParts? items (itemLists? items) =
      (items[0]?.elim none Json.text?).bind fun name =>
        (items[1]?.elim (some []) children?).bind fun children =>
          (Json.item? Location.ofJson? items 2).map fun location =>
            .node (.ofName name) children location := by
  match items, h with
  | [], _ => rfl
  | [.str name], _ => rfl
  | [.str name, part], _ =>
    rw [ofParts?_pair]
    cases hpart : children? part <;> simp [Json.text?, hpart, Json.item?]
  | [.str name, part, location], _ =>
    rw [ofParts?_triple]
    rfl
  | .null :: _, _ | .bool _ :: _, _ | .int _ :: _, _ | .float _ :: _, _ | .arr _ :: _, _
  | .obj _ :: _, _ => rfl

theorem ofParts?_of_length {items : List Json} (h : 3 < items.length) :
    ofParts? items (itemLists? items) = none := by
  match items, h with
  | .str name :: _ :: _ :: _ :: _, _ => rfl
  | .null :: _, _ | .bool _ :: _, _ | .int _ :: _, _ | .float _ :: _, _ | .arr _ :: _, _
  | .obj _ :: _, _ => rfl

/-- A list that holds an object is no literal. -/
theorem ofJson?_arr_of_not_objectFree {items : List Json} (h : ¬ (Json.arr items).ObjectFree) :
    ofJson? (.arr items) = ofParts? items (itemLists? items) := by
  rw [← Literal.isSome_ofJson?_iff, Option.not_isSome_iff_eq_none] at h
  rw [ofJson?, h]
  cases ofParts? items (itemLists? items) <;> rfl

end Tree

/-- No range has a list or an object for an offset. -/
theorem Range.ofJson?_arr_eq_none {items : List Json} {v : Json} (hv : v.isContainer = true)
    (h : v ∈ items) : ofJson? (.arr items) = none := by
  match items with
  | [first, last] =>
    rw [ofJson?]
    rcases List.mem_pair.mp h with rfl | rfl
    · rw [Json.uint64?_of_isContainer hv]
    · rw [Json.uint64?_of_isContainer hv]
      cases first.uint64? <;> rfl
  | [] | [_] | _ :: _ :: _ :: _ => rfl

/-! ### One edit -/

namespace Json

/-- Two objects whose entries give the same to each known key read the same. -/
theorem sameReading_obj {role : Role} {entries entries' : List (String × Json)}
    (h : ∀ key ∈ role.keys, Alike (Interchangeable (role.ofKey key)) (occurrences key entries)
      (occurrences key entries')) :
    SameReading role (.obj entries) (.obj entries') := by
  have hnull : ∀ {role} v v', Interchangeable role v v' → (v = .null ↔ v' = .null) :=
    fun v v' h => h.null_iff
  have hint : ∀ v v', Interchangeable .plain v v' → v.int64? = v'.int64? :=
    fun v v' h => h.read_eq int64?_of_isContainer
  have huint : ∀ v v', Interchangeable .plain v v' → v.uint64? = v'.uint64? :=
    fun v v' h => h.read_eq uint64?_of_isContainer
  have htext : ∀ v v', Interchangeable .plain v v' → v.text? = v'.text? :=
    fun v v' h => h.read_eq text?_of_isContainer
  cases role with
  | tree =>
    have htype := required?_congr (h "type" (by simp [Role.keys])) htext
    have hchildren := Tree.listed?_congr ((h "children" (by simp [Role.keys])).map
      fun _ _ h => h.sameReading)
    have hlocation := optional?_congr (h "location" (by simp [Role.keys]))
      (fun _ _ h => h.sameReading) hnull
    rw [SameReading, Tree.ofJson?, Tree.ofJson?, Tree.ofEntries?_eq, Tree.ofEntries?_eq, htype,
      hchildren, hlocation]
  | children => rfl
  | location =>
    have hline := optional?_congr (h "line" (by simp [Role.keys])) hint hnull
    have hcolumn := optional?_congr (h "column" (by simp [Role.keys])) hint hnull
    have hlastLine := optional?_congr (h "last_line" (by simp [Role.keys])) hint hnull
    have hlastColumn := optional?_congr (h "last_column" (by simp [Role.keys])) hint hnull
    have hexpression := optional?_congr (h "expression" (by simp [Role.keys]))
      (fun _ _ h => h.sameReading) hnull
    rw [SameReading, Location.ofJson?, Location.ofJson?, hline, hcolumn, hlastLine, hlastColumn,
      hexpression]
  | range =>
    have hfirst := required?_congr (h "begin_pos" (by simp [Role.keys])) huint
    have hlast := required?_congr (h "end_pos" (by simp [Role.keys])) huint
    rw [SameReading, Range.ofJson?, Range.ofJson?, hfirst, hlast]
  | plain => trivial

/-- Two lists that differ in one item, which may be replaced at its place, read the same. -/
theorem sameReading_arr {role : Role} {before after : List Json} {v v' : Json}
    (hfree : ¬ v.ObjectFree ∧ ¬ v'.ObjectFree)
    (h : Interchangeable (role.ofIndex before.length) v v') :
    SameReading role (.arr (before ++ v :: after)) (.arr (before ++ v' :: after)) := by
  have hnull : ∀ {role} v v', Interchangeable role v v' → (v = .null ↔ v' = .null) :=
    fun v v' h => h.null_iff
  cases role with
  | tree =>
    have hheld : ¬ (Json.arr (before ++ v :: after)).ObjectFree := fun hall =>
      hfree.1 ((objectFree_arr_iff _).mp hall v (by simp))
    have hheld' : ¬ (Json.arr (before ++ v' :: after)).ObjectFree := fun hall =>
      hfree.2 ((objectFree_arr_iff _).mp hall v' (by simp))
    rw [SameReading, Tree.ofJson?_arr_of_not_objectFree hheld,
      Tree.ofJson?_arr_of_not_objectFree hheld']
    have hlength : (before ++ v :: after).length = (before ++ v' :: after).length := by simp
    by_cases hlen : (before ++ v :: after).length ≤ 3
    · have htext : (before ++ v :: after)[0]?.elim none text? =
          (before ++ v' :: after)[0]?.elim none text? :=
        elim_getElem?_replace none 0 fun _ => h.read_eq text?_of_isContainer
      have hchildren : (before ++ v :: after)[1]?.elim (some []) Tree.children? =
          (before ++ v' :: after)[1]?.elim (some []) Tree.children? := by
        refine elim_getElem?_replace (some []) 1 fun hindex => ?_
        rw [← hindex] at h
        exact h.sameReading
      have hlocation : item? Location.ofJson? (before ++ v :: after) 2 =
          item? Location.ofJson? (before ++ v' :: after) 2 := by
        refine item?_replace (R := Interchangeable .location) (fun _ _ h => h.sameReading) hnull 2
          fun hindex => ?_
        rw [← hindex] at h
        exact h
      rw [Tree.ofParts?_eq hlen, Tree.ofParts?_eq (hlength ▸ hlen), htext, hchildren, hlocation]
    · have hgt : 3 < (before ++ v :: after).length := Nat.lt_of_not_le hlen
      rw [Tree.ofParts?_of_length hgt, Tree.ofParts?_of_length (hlength ▸ hgt)]
  | children =>
    have hread : Tree.ofJson? v = Tree.ofJson? v' := h.sameReading
    rw [SameReading, Tree.children?, Tree.children?, Tree.ofJsons?_eq_mapM, Tree.ofJsons?_eq_mapM,
      List.mapM_append, List.mapM_append, List.mapM_cons, List.mapM_cons, hread]
  | location =>
    have hlength : (before ++ v :: after).length = (before ++ v' :: after).length := by simp
    have hplace : ∀ index, item? int64? (before ++ v :: after) index =
        item? int64? (before ++ v' :: after) index := fun index =>
      item?_replace (fun _ _ h => h.read_eq int64?_of_isContainer) hnull index fun _ => h
    have hexpression : item? Range.ofJson? (before ++ v :: after) 4 =
        item? Range.ofJson? (before ++ v' :: after) 4 := by
      refine item?_replace (R := Interchangeable .range) (fun _ _ h => h.sameReading) hnull 4
        fun hindex => ?_
      rw [← hindex] at h
      exact h
    rw [SameReading, Location.ofJson?, Location.ofJson?, hlength, hplace, hplace, hplace, hplace,
      hexpression]
  | range =>
    rcases h with rfl | ⟨hv, hv', -⟩
    · rfl
    · rw [SameReading, Range.ofJson?_arr_eq_none hv (by simp),
        Range.ofJson?_arr_eq_none hv' (by simp)]
  | plain => trivial

/-- **One edit does not change what a value reads as.** -/
theorem Edit.sameReading {role : Role} {v v' : Json} (h : Edit role v v') :
    SameReading role v v' := by
  induction h with
  | permute hperm =>
    refine sameReading_obj fun key _ => Alike.of_perm (Interchangeable.refl _) ?_
    exact (hperm.filter _).map _
  | insert before after key v hkey =>
    refine sameReading_obj fun key' hkey' => ?_
    have hne : key ≠ key' := fun heq => hkey (heq ▸ hkey')
    rw [occurrences_append, occurrences_append, occurrences_cons, if_neg hne]
    exact Alike.of_perm (Interchangeable.refl _) (List.Perm.refl _)
  | delete before after key v hkey =>
    refine sameReading_obj fun key' hkey' => ?_
    have hne : key ≠ key' := fun heq => hkey (heq ▸ hkey')
    rw [occurrences_append, occurrences_append, occurrences_cons, if_neg hne]
    exact Alike.of_perm (Interchangeable.refl _) (List.Perm.refl _)
  | entry before after key h ih =>
    refine sameReading_obj fun key' _ => ?_
    rw [occurrences_append, occurrences_append, occurrences_cons, occurrences_cons]
    by_cases heq : key = key'
    · rw [if_pos heq, if_pos heq, ← heq]
      exact Alike.replace (h.interchangeable ih) _ _
    · rw [if_neg heq, if_neg heq]
      exact Alike.of_perm (Interchangeable.refl _) (List.Perm.refl _)
  | item before after h ih => exact sameReading_arr h.not_objectFree (h.interchangeable ih)

end Json

/-- **Any number of edits does not change what a value reads as.** It reads as the same tree before
and after them, or as none. -/
theorem Tree.ofJson?_eq_of_edits {v v' : Json} (h : Relation.ReflTransGen (Json.Edit .tree) v v') :
    ofJson? v = ofJson? v' := by
  induction h with
  | refl => rfl
  | tail _ hedit ih => exact ih.trans hedit.sameReading

/-- Two entries swapped at the root, one inserted into the location of a child that is given by its
parts, and one deleted at the root. -/
theorem Tree.ofJson?_three_edits : ∃ v v',
    v = Json.obj [("type", .str "send"),
      ("children", .arr [.arr [.str "int", .arr [], .obj [("line", .ofInt64 1)]]]),
      ("note", .null)] ∧
    v' = Json.obj [("children", .arr [.arr [.str "int", .arr [],
      .obj [("file", .obj []), ("line", .ofInt64 1)]]]), ("type", .str "send")] ∧
    Relation.ReflTransGen (Json.Edit .tree) v v' ∧ ofJson? v = ofJson? v' ∧
    ofJson? v = some (.node (.ofName "send")
      [.node (.ofName "int") [] (some { line := some 1 })] none) := by
  have hedits : Relation.ReflTransGen (Json.Edit .tree)
      (Json.obj [("type", .str "send"),
        ("children", .arr [.arr [.str "int", .arr [], .obj [("line", .ofInt64 1)]]]),
        ("note", .null)])
      (Json.obj [("children", .arr [.arr [.str "int", .arr [],
        .obj [("file", .obj []), ("line", .ofInt64 1)]]]), ("type", .str "send")]) := by
    refine .head (.permute (.swap _ _ _)) ?_
    refine .head (.entry [] [_, _] "children" (.item [] [] (.item [_, _] []
      (.insert [] [_] "file" (.obj []) (by decide))))) ?_
    exact .single (.delete [_, _] [] "note" .null (by decide))
  exact ⟨_, _, rfl, rfl, hedits, ofJson?_eq_of_edits hedits, rfl⟩

end NamedTree
