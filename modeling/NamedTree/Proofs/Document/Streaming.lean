import NamedTree.Document.Reader
import NamedTree.Proofs.Json.Grammar
import NamedTree.Proofs.Json.Parts
import NamedTree.Proofs.Json.Spacing

/-! # Reading documents straight from their texts

`Document.read` goes through the text once and holds only the tree as a value. The alternative is to
read the whole text as a value and to decode it afterwards: `Document.ofJson?`. Both give the same
document, or none, for every text of a value (`toOption_read_eq_ofJson?`).

* `Parts.add` is one entry on the value's side; reading an entry of the text does the same
  (`toOption_readPart`), so reading an object adds its entries one after another
  (`toOption_readParts`).
* The entries of different keys do not interfere: `once` is one occurrence of a key, and what all
  entries add is what the occurrences of each key add by themselves (`addAll_eq`). -/

namespace NamedTree

open Json

@[simp] theorem toOption_ok (a : α) : (Except.ok a : Except ε α).toOption = some a := rfl

theorem toOption_bind (x : Except ε α) (f : α → Except ε β) :
    (x >>= f).toOption = x.toOption.bind fun a => (f a).toOption := by
  cases x <;> rfl

theorem toOption_map (x : Except ε α) (f : α → β) : (x.map f).toOption = x.toOption.map f := by
  cases x <;> rfl

namespace Json

/-- One more occurrence of a key of which at most one is allowed. -/
def once (read : Json → Option α) (seen : Option α) (v : Json) : Option (Option α) :=
  if seen.isSome then none else (read v).map some

end Json

namespace Document

/-- The document of a value: an object in which no part is repeated, or a list of two or three
parts. -/
def ofJson? : Json → Option Document
  | .obj entries => do
    let filePath ← optional? text? "file_path" entries
    let source ← required? text? "source" entries
    let tree ← optional? Tree.ofJson? "tree" entries
    return ⟨filePath, source, tree⟩
  | .arr [filePath, source] => do
    return ⟨← nullable? text? filePath, ← text? source, none⟩
  | .arr [filePath, source, tree] => do
    return ⟨← nullable? text? filePath, ← text? source, ← nullable? Tree.ofJson? tree⟩
  | _ => none

/-- The parts with one more entry. Entries with unknown keys are ignored. -/
def Parts.add (parts : Parts) (key : String) (v : Json) : Option Parts :=
  if key = "file_path" then
    (once (nullable? text?) parts.filePath v).map fun filePath => { parts with filePath }
  else if key = "source" then
    (once text? parts.source v).map fun source => { parts with source }
  else if key = "tree" then
    (once (nullable? Tree.ofJson?) parts.tree v).map fun tree => { parts with tree }
  else some parts

/-- The parts with more entries. -/
def Parts.addAll (parts : Parts) : List (String × Json) → Option Parts
  | [] => some parts
  | (key, v) :: entries => (parts.add key v).bind fun parts => parts.addAll entries

/-- The document that the parts make. -/
def Parts.document? (parts : Parts) : Option Document :=
  parts.source.map fun source => ⟨parts.filePath.join, source, parts.tree.join⟩

end Document

/-! ### The parts of a text -/

namespace Json

/-- The first character of a value tells null and strings from all others. -/
theorem IsValue.null_or_text {cs rest : List Char} {v : Json} (h : IsValue cs v rest) :
    (∃ tail, skipBlanks cs = 'n' :: tail ∧ v = .null ∧ readWord "ull".toList tail = .ok rest) ∨
    (∃ tail s, skipBlanks cs = '"' :: tail ∧ v = .str s ∧ readString tail = .ok (s, rest)) ∨
    ((∀ tail, skipBlanks cs ≠ 'n' :: tail ∧ skipBlanks cs ≠ '"' :: tail) ∧
      v ≠ .null ∧ ∀ s, v ≠ .str s) := by
  cases h with
  | list h items => exact Or.inr (Or.inr (by simp [h]))
  | object h entries => exact Or.inr (Or.inr (by simp [h]))
  | leaf h hlist hobject value =>
    cases readLeaf_eq_ok value with
    | null hword => exact Or.inl ⟨_, h, rfl, hword⟩
    | yes hword | no hword => exact Or.inr (Or.inr (by simp [h]))
    | negative hnumber =>
      refine Or.inr (Or.inr ?_)
      rcases value_of_readNumber hnumber with ⟨n, rfl⟩ | ⟨x, rfl⟩ <;> simp [h]
    | number hdigit hnumber =>
      have hn := Leaf.ne_of_isDigit hdigit (d := 'n') rfl
      have hquote := Leaf.ne_of_isDigit hdigit (d := '"') rfl
      refine Or.inr (Or.inr ?_)
      rcases value_of_readNumber hnumber with ⟨n, rfl⟩ | ⟨x, rfl⟩ <;> simp [h, hn, hquote]
    | text hstring => exact Or.inr (Or.inl ⟨_, _, h, rfl, hstring⟩)

theorem IsValue.eq_null_of_skipBlanks {cs tail rest : List Char} {v : Json} (h : IsValue cs v rest)
    (hcs : Json.skipBlanks cs = 'n' :: tail) :
    v = .null ∧ readWord "ull".toList tail = .ok rest := by
  rcases h.null_or_text with ⟨tail', hcs', rfl, hword⟩ | ⟨tail', s, hcs', -⟩ | ⟨hhead, -⟩
  · cases hcs.symm.trans hcs'
    exact ⟨rfl, hword⟩
  · cases hcs.symm.trans hcs'
  · exact absurd hcs (hhead tail).1

theorem IsValue.ne_null {cs rest : List Char} {v : Json} (h : IsValue cs v rest)
    (hn : ∀ tail, Json.skipBlanks cs = 'n' :: tail → False) : v ≠ .null := by
  rintro rfl
  rcases h.null_or_text with ⟨tail, hcs, -⟩ | ⟨tail, s, -, hs, -⟩ | ⟨-, hnull, -⟩
  · exact hn tail hcs
  · cases hs
  · exact hnull rfl

theorem IsValue.skipBlanks {cs rest : List Char} {v : Json} (h : IsValue cs v rest) :
    IsValue (skipBlanks cs) v rest :=
  h.of_skipBlanks_eq (skipBlanks_skipBlanks cs)

end Json

namespace Document

theorem toOption_readSource {cs rest : List Char} {v : Json} (h : IsValue cs v rest) :
    (readSource cs).toOption = (text? v).map (·, rest) := by
  rcases h.null_or_text with ⟨tail, hcs, rfl, -⟩ | ⟨tail, s, hcs, rfl, hstring⟩ | ⟨hhead, -, htext⟩
  · rw [readSource, hcs]
    rfl
  · rw [readSource, hcs]
    simp only [hstring]
    rfl
  · unfold readSource
    split
    · rename_i tail hcs
      exact absurd hcs (hhead tail).2
    · rw [text?_eq_none htext]
      rfl

theorem toOption_readFilePath {cs rest : List Char} {v : Json} (h : IsValue cs v rest) :
    (readFilePath cs).toOption = (nullable? text? v).map (·, rest) := by
  unfold readFilePath
  split
  · rename_i tail hcs
    obtain ⟨rfl, hword⟩ := h.eq_null_of_skipBlanks hcs
    rw [hword]
    rfl
  · rename_i hn
    rw [toOption_map, toOption_readSource h.skipBlanks, nullable?_of_ne_null (h.ne_null hn)]
    cases text? v <;> rfl

theorem toOption_readTree {close : List Char → List Char} {cs rest : List Char} {v : Json}
    (h : IsValue cs v rest) :
    (readTree close cs).toOption = (nullable? Tree.ofJson? v).map (·, rest) := by
  unfold readTree
  split
  · rename_i tail hcs
    obtain ⟨rfl, hword⟩ := h.eq_null_of_skipBlanks hcs
    rw [hword]
    rfl
  · rename_i hn
    have hvalue : readValue none (steps (skipBlanks cs)) (skipBlanks cs) = .ok (v, rest) :=
      h.skipBlanks.readValue_eq _ (Nat.le_succ _)
    rw [hvalue, nullable?_of_ne_null (h.ne_null hn)]
    simp only
    cases Tree.ofJson? v <;> rfl

/-! ### Documents that are objects -/

theorem toOption_readPart {parts : Parts} {key : String} {cs text rest : List Char} {v : Json}
    (hcolon : readColon cs = .ok text) (h : IsValue text v rest) :
    (readPart parts key cs).toOption = (parts.add key v).map (·, rest) := by
  unfold readPart Parts.add
  split_ifs with hpath hseen hsource hseen htree hseen
  · rw [once, if_pos hseen]
    rfl
  · rw [once, if_neg hseen]
    simp only [hcolon, toOption_bind, toOption_ok, Option.bind_some, toOption_readFilePath h]
    cases nullable? text? v <;> rfl
  · rw [once, if_pos hseen]
    rfl
  · rw [once, if_neg hseen]
    simp only [hcolon, toOption_bind, toOption_ok, Option.bind_some, toOption_readSource h]
    cases text? v <;> rfl
  · rw [once, if_pos hseen]
    rfl
  · rw [once, if_neg hseen]
    simp only [hcolon, toOption_bind, toOption_ok, Option.bind_some, toOption_readTree h]
    cases nullable? Tree.ofJson? v <;> rfl
  · have hskip : skipValue (steps text) text = .ok rest := h.skipValue_eq _ (Nat.le_succ _)
    simp only [hcolon, toOption_bind, toOption_ok, Option.bind_some, hskip]
    rfl

/-- Reading the entries of a text adds them one after another. -/
theorem toOption_readParts : ∀ (entries : List (String × Json)) {first : Bool}
    {cs rest : List Char}, AreEntries first cs entries rest → ∀ fuel, cs.length < fuel → ∀ parts,
      (readParts fuel first parts cs).toOption =
        ((parts.addAll entries).bind Parts.document?).map (·, rest)
  | [], _, cs, rest, .close h, fuel, hfuel, parts => by
    obtain ⟨fuel, rfl⟩ : ∃ n, fuel = n + 1 := ⟨fuel - 1, by omega⟩
    rw [readParts, toOption_bind, h, Parts.addAll, Option.bind_some, Parts.document?]
    simp only [toOption_ok, Option.bind_some]
    cases parts.source <;> rfl
  | (key, v) :: entries, _, cs, rest, .entry h hkey hcolon value others, fuel, hfuel, parts => by
    have := length_of_nextKey h
    have := length_of_readString hkey
    have := length_of_skipBlanks_cons (readColon_eq_ok hcolon)
    have := value.length_lt
    obtain ⟨fuel, rfl⟩ : ∃ n, fuel = n + 1 := ⟨fuel - 1, by omega⟩
    have hothers := toOption_readParts entries others fuel (by omega)
    rw [readParts, toOption_bind, h, Parts.addAll]
    simp only [hkey, toOption_bind, toOption_readPart hcolon value, toOption_ok,
      Option.bind_some]
    cases parts.add key v with
    | none => rfl
    | some parts => exact hothers parts

/-- What the entries add, each key by itself. -/
theorem addAll_eq : ∀ (entries : List (String × Json)) (parts : Parts),
    parts.addAll entries = do
      let filePath ← (occurrences "file_path" entries).foldlM (once (nullable? text?))
        parts.filePath
      let source ← (occurrences "source" entries).foldlM (once text?) parts.source
      let tree ← (occurrences "tree" entries).foldlM (once (nullable? Tree.ofJson?)) parts.tree
      some ⟨filePath, source, tree⟩
  | [], parts => rfl
  | (key, v) :: entries, parts => by
    have hentries := addAll_eq entries
    rw [Parts.addAll, Parts.add]
    -- An entry that cannot be added leaves no document, whatever the other keys give.
    by_cases hpath : key = "file_path"
    · subst hpath
      simp only [occurrences_cons, String.reduceEq, if_true, if_false, List.foldlM_cons]
      cases once (nullable? text?) parts.filePath v with
      | none => rfl
      | some filePath => exact hentries _
    by_cases hsource : key = "source"
    · subst hsource
      simp only [occurrences_cons, String.reduceEq, if_true, if_false, List.foldlM_cons]
      cases once text? parts.source v with
      | none =>
        cases (occurrences "file_path" entries).foldlM (once (nullable? text?)) parts.filePath <;>
          rfl
      | some source => exact hentries _
    by_cases htree : key = "tree"
    · subst htree
      simp only [occurrences_cons, String.reduceEq, if_true, if_false, List.foldlM_cons]
      cases once (nullable? Tree.ofJson?) parts.tree v with
      | none =>
        cases (occurrences "file_path" entries).foldlM (once (nullable? text?)) parts.filePath <;>
          cases (occurrences "source" entries).foldlM (once text?) parts.source <;> rfl
      | some tree => exact hentries _
    · simp only [occurrences_cons, if_neg hpath, if_neg hsource, if_neg htree]
      exact hentries parts

theorem foldlM_once (read : Json → Option α) : ∀ vs : List Json,
    vs.foldlM (once read) none = match vs with
      | [] => some none
      | [v] => (read v).map some
      | _ => none
  | [] => rfl
  | [v] => by
    rw [List.foldlM_cons, once, if_neg (by simp)]
    show _ = (read v).map some
    cases read v <;> rfl
  | v :: w :: vs => by
    rw [List.foldlM_cons, once, if_neg (by simp)]
    cases read v <;> rfl

theorem optional?_eq (read : Json → Option α) (key : String) (entries : List (String × Json)) :
    optional? read key entries =
      ((occurrences key entries).foldlM (once (nullable? read)) none).map Option.join := by
  rw [foldlM_once, optional?]
  rcases occurrences key entries with _ | ⟨v, _ | ⟨w, vs⟩⟩
  · rfl
  · cases v with
    | null => rfl
    | _ => simp [nullable?, Function.comp_def]
  · cases v <;> rfl

theorem required?_eq (read : Json → Option α) (key : String) (entries : List (String × Json)) :
    required? read key entries = ((occurrences key entries).foldlM (once read) none).join := by
  rw [foldlM_once, required?]
  rcases occurrences key entries with _ | ⟨v, _ | ⟨w, vs⟩⟩
  · rfl
  · cases hread : read v <;> simp [hread]
  · rfl

theorem ofJson?_obj (entries : List (String × Json)) :
    ofJson? (.obj entries) = (Parts.addAll {} entries).bind Parts.document? := by
  rw [ofJson?, addAll_eq, optional?_eq, required?_eq, optional?_eq]
  cases (occurrences "file_path" entries).foldlM (once (nullable? text?)) none with
  | none => rfl
  | some filePath =>
    cases (occurrences "source" entries).foldlM (once text?) none with
    | none => rfl
    | some source =>
      cases (occurrences "tree" entries).foldlM (once (nullable? Tree.ofJson?)) none <;>
        cases source <;> rfl

/-! ### Documents that are lists -/

theorem toOption_readListEnd {cs rest : List Char} {vs : List Json}
    (h : AreItems false cs vs rest) :
    (readListEnd cs).toOption = if vs.isEmpty then some rest else none := by
  cases h with
  | close h =>
    rw [readListEnd, nextItem_eq_close h]
    rfl
  | item h value others =>
    obtain ⟨⟨c, tail, rfl, hc⟩, ⟨hfirst, -⟩ | ⟨-, tail', hcs, htail⟩⟩ := nextItem_eq_item h
    · cases hfirst
    · rw [readListEnd, hcs]
      simp only [htail, if_neg (by decide : ¬ ',' = ']'), if_true]
      split <;> rfl

/-- The tree of a list, after the other two parts. -/
def lastTree? : List Json → Option (Option Tree)
  | [] => some none
  | [tree] => nullable? Tree.ofJson? tree
  | _ => none

theorem ofJson?_arr (path text : Json) (vs : List Json) :
    ofJson? (.arr (path :: text :: vs)) = (nullable? text? path).bind fun filePath =>
      (text? text).bind fun source => (lastTree? vs).map fun tree => ⟨filePath, source, tree⟩ := by
  rcases vs with _ | ⟨tree, _ | ⟨other, vs⟩⟩
  · rfl
  · cases hread : nullable? Tree.ofJson? tree <;> simp [ofJson?, lastTree?, hread]
  · cases nullable? text? path <;> cases text? text <;> rfl

theorem toOption_readList {cs rest : List Char} {vs : List Json} (h : AreItems true cs vs rest) :
    (readList cs).toOption = (ofJson? (.arr vs)).map (·, rest) := by
  rw [readList, toOption_bind]
  cases h with
  | close h =>
    rw [h]
    rfl
  | @item _ _ _ path _ _ _ h hpath others =>
    simp only [h, toOption_ok, Option.bind_some, toOption_bind, toOption_readFilePath hpath]
    cases others with
    | close h =>
      cases nullable? text? path with
      | none => rfl
      | some filePath =>
        simp only [Option.map_some, Option.bind_some, h]
        rfl
    | @item _ _ _ text _ vs _ h htext others =>
      rw [ofJson?_arr]
      cases nullable? text? path with
      | none => rfl
      | some filePath =>
        simp only [Option.map_some, Option.bind_some, toOption_bind, h, toOption_ok,
          toOption_readSource htext]
        cases text? text with
        | none => rfl
        | some source =>
          cases others with
          | close h =>
            simp only [Option.map_some, Option.bind_some, h]
            rfl
          | @item _ _ _ tree _ vs _ h htree others =>
            simp only [Option.map_some, Option.bind_some, h, toOption_ok, toOption_bind,
              toOption_readTree htree]
            have hend := toOption_readListEnd others
            cases hread : nullable? Tree.ofJson? tree with
            | none => cases vs <;> simp [lastTree?, hread]
            | some last =>
              simp only [Option.map_some, Option.bind_some, hend]
              cases vs <;> simp only [lastTree?, hread] <;> rfl

/-! ### Whole documents -/

theorem toOption_readFrom {cs rest : List Char} {v : Json} (h : IsValue cs v rest) :
    (readFrom cs).toOption = (ofJson? v).map (·, rest) := by
  unfold readFrom
  cases h with
  | list h items =>
    rw [h]
    exact toOption_readList items
  | object h entries =>
    rw [h, ofJson?_obj]
    exact toOption_readParts _ entries _ (Nat.lt_succ_self _) {}
  | leaf h hlist hobject value =>
    have hother : ofJson? v = none := by
      cases readLeaf_eq_ok value with
      | null hword | yes hword | no hword | text hstring => rfl
      | negative hnumber | number hdigit hnumber =>
        rcases value_of_readNumber hnumber with ⟨n, rfl⟩ | ⟨x, rfl⟩ <;> rfl
    rw [h, hother]
    split
    · rename_i heq
      cases heq
      exact absurd rfl hobject
    · rename_i heq
      cases heq
      exact absurd rfl hlist
    · rfl

/-- **A document read straight from its text is the document of the value that the text is.** -/
theorem toOption_read_eq_ofJson? {text : String} {v : Json} (h : Json.read text = .ok v) :
    (Document.read text).toOption = ofJson? v := by
  obtain ⟨⟨v', rest⟩, hvalue, h⟩ := bind_eq_ok_iff.mp h
  obtain ⟨⟨⟩, hfinish, h⟩ := bind_eq_ok_iff.mp h
  cases h
  rw [Document.read, toOption_bind, toOption_readFrom (isValue_of_readValue hvalue)]
  cases ofJson? v with
  | none => rfl
  | some document =>
    simp only [Option.map_some, Option.bind_some, hfinish]
    rfl

/-- The keys may stand in any order and be written with escapes; another key may hold any value. -/
theorem read_reordered_entries :
    let text := "\x7b\"tree\":[\"int\",[1]],\"x\":\x7b\"y\":[]\x7d,\"sourc\\u0065\":\"1\"\x7d"
    let v : Json := .obj [("tree", .arr [.str "int", .arr [.ofInt64 1]]),
      ("x", .obj [("y", .arr [])]), ("source", .str "1")]
    Json.read text = .ok v ∧ (Document.read text).toOption =
      some ⟨none, "1", some (.node (.ofName "int") [.literal (.int 1)] none)⟩ := by
  intro text v
  have hread : Json.read text = .ok v :=
    Json.read_eq_of_toCompact_eq rfl (by decide +kernel)
  refine ⟨hread, (toOption_read_eq_ofJson? hread).trans ?_⟩
  rfl

end Document

end NamedTree
