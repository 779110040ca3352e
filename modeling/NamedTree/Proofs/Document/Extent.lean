import NamedTree.Discovery
import NamedTree.Proofs.Document.Streaming
import NamedTree.Proofs.Json.Extent
import Mathlib.Data.List.DropRight

/-! # A document fills its text

Reading a document ends with a bracket and does not look further (`closes_readFrom`). So what follows
an accepted text decides by itself (`ofText_append`): after blanks the same document is read, and
anything else is a fault at its first character that is no blank. Without the blanks at their ends
(`core`), no accepted text is the beginning of another.

The parts that are read are values, and how far these reach is known; what they mean does not depend
on the text that follows (`peeks_of_isValue`). Only the values of unknown keys need not be values
that can be read. -/

namespace NamedTree

open Json

theorem eq_ok_of_toOption {x : Except ε α} {a : α} (h : x.toOption = some a) : x = .ok a := by
  cases x with
  | error e => cases h
  | ok b => exact congrArg _ (Option.some.inj h)

namespace Document

/-! ### The parts of a document -/

/-- What is read from a value is read from its text, whatever follows. -/
theorem peeks_of_isValue {read : List Char → Except Fault (α × List Char)}
    {meaning : Json → Option α}
    (hread : ∀ {cs v rest}, IsValue cs v rest →
      (read cs).toOption = (meaning v).map (·, rest))
    {cs rest : List Char} {a : α} (hvalue : ∃ v, IsValue cs v rest) (h : read cs = .ok (a, rest)) :
    Peeks (fun cs rest => read cs = .ok (a, rest)) cs rest := by
  obtain ⟨v, hvalue⟩ := hvalue
  have hmeaning := hread hvalue
  rw [h, toOption_ok] at hmeaning
  obtain ⟨b, hb, heq⟩ := Option.map_eq_some_iff.mp hmeaning.symm
  cases heq
  exact hvalue.peeks.imp fun cs rest hvalue => eq_ok_of_toOption (by rw [hread hvalue, hb]; rfl)

theorem isValue_null {cs text rest : List Char} (hcs : skipBlanks cs = 'n' :: text)
    (hword : readWord "ull".toList text = .ok rest) : IsValue cs .null rest :=
  .leaf hcs (by decide) (by decide) (by simp only [readLeaf, hword]; rfl)

theorem exists_isValue_of_readSource {cs rest : List Char} {s : String}
    (h : readSource cs = .ok (s, rest)) : ∃ v, IsValue cs v rest := by
  unfold readSource at h
  split at h
  · rename_i text hcs
    exact ⟨.str s, .leaf hcs (by decide) (by decide) (by simp only [readLeaf, h]; rfl)⟩
  · cases h

theorem exists_isValue_of_readFilePath {cs rest : List Char} {path : Option String}
    (h : readFilePath cs = .ok (path, rest)) : ∃ v, IsValue cs v rest := by
  unfold readFilePath at h
  split at h
  · rename_i text hcs
    obtain ⟨rest', hword, heq⟩ := map_eq_ok_iff.mp h
    cases heq
    exact ⟨.null, isValue_null hcs hword⟩
  · obtain ⟨⟨s, rest'⟩, hsource, heq⟩ := map_eq_ok_iff.mp h
    cases heq
    obtain ⟨v, hvalue⟩ := exists_isValue_of_readSource hsource
    exact ⟨v, hvalue.of_skipBlanks_eq (skipBlanks_skipBlanks cs).symm⟩

theorem exists_isValue_of_readTree {close : List Char → List Char} {cs rest : List Char}
    {tree : Option Tree} (h : readTree close cs = .ok (tree, rest)) : ∃ v, IsValue cs v rest := by
  unfold readTree at h
  split at h
  · rename_i text hcs
    obtain ⟨rest', hword, heq⟩ := map_eq_ok_iff.mp h
    cases heq
    exact ⟨.null, isValue_null hcs hword⟩
  · split at h
    · cases h
    · rename_i v rest' hvalue
      split at h
      · cases h
        exact ⟨v, (isValue_of_readValue hvalue).of_skipBlanks_eq (skipBlanks_skipBlanks cs).symm⟩
      · cases h

/-! ### Documents that are objects -/

/-- The value of a key that is known, which becomes one of the parts. -/
theorem peeks_readMember {read : List Char → Except Fault (α × List Char)}
    {meaning : Json → Option α}
    (hread : ∀ {cs v rest}, IsValue cs v rest → (read cs).toOption = (meaning v).map (·, rest))
    (hvalue : ∀ {cs rest a}, read cs = .ok (a, rest) → ∃ v, IsValue cs v rest)
    (add : α → Parts) {parts : Parts} {cs rest : List Char}
    (h : (do let rest ← readColon cs; let (a, rest) ← read rest; return (add a, rest)) =
      Except.ok (parts, rest)) :
    Peeks (fun cs rest => (do
      let rest ← readColon cs; let (a, rest) ← read rest; return (add a, rest)) =
        Except.ok (parts, rest)) cs rest := by
  obtain ⟨text, hcolon, h⟩ := bind_eq_ok_iff.mp h
  obtain ⟨⟨a, rest'⟩, ha, heq⟩ := bind_eq_ok_iff.mp h
  cases heq
  refine ((peeks_readColon hcolon).then (peeks_of_isValue hread (hvalue ha) ha)).imp ?_
  rintro cs rest ⟨text, hcolon, ha⟩
  simp only [hcolon, ha, bind, Except.bind]
  rfl

theorem peeks_readPart {parts parts' : Parts} {key : String} {cs rest : List Char}
    (h : readPart parts key cs = .ok (parts', rest)) :
    Peeks (fun cs rest => readPart parts key cs = .ok (parts', rest)) cs rest := by
  unfold readPart at h
  split_ifs at h with hpath hseen hsource hseen htree hseen
  · have hmember := peeks_readMember toOption_readFilePath exists_isValue_of_readFilePath
      (fun path => { parts with filePath := some path }) h
    refine hmember.imp fun cs rest h => ?_
    rw [readPart, if_pos hpath, if_neg hseen]
    exact h
  · have hmember := peeks_readMember toOption_readSource exists_isValue_of_readSource
      (fun source => { parts with source := some source }) h
    refine hmember.imp fun cs rest h => ?_
    rw [readPart, if_neg hpath, if_pos hsource, if_neg hseen]
    exact h
  · have hmember := peeks_readMember toOption_readTree exists_isValue_of_readTree
      (fun tree => { parts with tree := some tree }) h
    refine hmember.imp fun cs rest h => ?_
    rw [readPart, if_neg hpath, if_neg hsource, if_pos htree, if_neg hseen]
    exact h
  · obtain ⟨text, hcolon, h⟩ := bind_eq_ok_iff.mp h
    obtain ⟨rest', hskip, heq⟩ := bind_eq_ok_iff.mp h
    cases heq
    refine ((peeks_readColon hcolon).then (peeks_skipValue hskip)).imp ?_
    rintro cs rest ⟨text, hcolon, hskip⟩
    rw [readPart, if_neg hpath, if_neg hsource, if_neg htree]
    simp only [hcolon, hskip, bind, Except.bind]
    rfl

/-- The steps that are left do not matter if there are enough of them. -/
theorem closes_readParts (fuel : ℕ) : ∀ {first : Bool} {parts : Parts} {cs rest : List Char}
    {document : Document}, readParts fuel first parts cs = .ok (document, rest) →
      Closes (fun cs rest => ∀ fuel, cs.length < fuel →
        readParts fuel first parts cs = .ok (document, rest)) cs rest := by
  induction fuel with
  | zero =>
    intro first parts cs rest document h
    rw [readParts] at h
    cases h
  | succ fuel ih =>
    intro first parts cs rest document h
    rw [readParts] at h
    obtain ⟨next, hnext, h⟩ := bind_eq_ok_iff.mp h
    cases next with
    | close rest' =>
      simp only at h
      split at h
      · rename_i source hsource
        cases h
        refine (closes_nextKey hnext).imp fun cs rest hnext fuel hfuel => ?_
        obtain ⟨fuel, rfl⟩ : ∃ n, fuel = n + 1 := ⟨fuel - 1, by omega⟩
        rw [readParts, hnext]
        simp only [bind, Except.bind, hsource]
        rfl
      · cases h
    | item quoted =>
      obtain ⟨⟨key, cs'⟩, hkey, h⟩ := bind_eq_ok_iff.mp h
      obtain ⟨⟨parts', cs''⟩, hpart, h⟩ := bind_eq_ok_iff.mp h
      have hentry := (peeks_readString hkey).closes ((peeks_readPart hpart).closes (ih h))
      refine ((peeks_nextKey hnext).closes hentry).imp ?_
      rintro cs rest ⟨quoted, hnext, cs', hkey, cs'', hpart, hothers⟩ fuel hfuel
      -- an entry takes its quotation mark at least, so one step less is enough for the others
      have := length_of_nextKey hnext
      have := length_of_readString hkey
      have := (peeks_readPart hpart).length_le
      obtain ⟨fuel, rfl⟩ : ∃ n, fuel = n + 1 := ⟨fuel - 1, by omega⟩
      rw [readParts, hnext]
      simp only [bind, Except.bind, hkey, hpart]
      exact hothers fuel (by omega)

/-! ### Documents that are lists -/

theorem nextItem_of_readListEnd {cs rest : List Char} (h : readListEnd cs = .ok rest) :
    nextItem false cs = .ok (.close rest) := by
  unfold readListEnd at h
  split at h
  · cases h
  · rename_i c text hcs
    split_ifs at h with hclose hcomma
    · cases h
      rw [nextItem, hcs]
      simp only [if_pos hclose]
    · split at h <;> cases h

theorem exists_areItems_of_readList {cs rest : List Char} {document : Document}
    (h : readList cs = .ok (document, rest)) : ∃ vs, AreItems true cs vs rest := by
  obtain ⟨next, hpath, h⟩ := bind_eq_ok_iff.mp h
  cases next with
  | close _ => cases h
  | item text =>
    obtain ⟨⟨path, cs₁⟩, hread, h⟩ := bind_eq_ok_iff.mp h
    obtain ⟨v, path⟩ := exists_isValue_of_readFilePath hread
    obtain ⟨next, hsource, h⟩ := bind_eq_ok_iff.mp h
    cases next with
    | close _ => cases h
    | item text =>
      obtain ⟨⟨source, cs₂⟩, hread, h⟩ := bind_eq_ok_iff.mp h
      obtain ⟨w, source⟩ := exists_isValue_of_readSource hread
      obtain ⟨next, htree, h⟩ := bind_eq_ok_iff.mp h
      cases next with
      | close _ =>
        cases h
        exact ⟨[v, w], .item hpath path (.item hsource source (.close htree))⟩
      | item text =>
        obtain ⟨⟨tree, cs₃⟩, hread, h⟩ := bind_eq_ok_iff.mp h
        obtain ⟨x, tree⟩ := exists_isValue_of_readTree hread
        obtain ⟨rest', hend, h⟩ := bind_eq_ok_iff.mp h
        cases h
        have hclose := nextItem_of_readListEnd hend
        exact ⟨[v, w, x], .item hpath path (.item hsource source (.item htree tree (.close hclose)))⟩

theorem closes_readList {cs rest : List Char} {document : Document}
    (h : readList cs = .ok (document, rest)) :
    Closes (fun cs rest => readList cs = .ok (document, rest)) cs rest := by
  obtain ⟨vs, items⟩ := exists_areItems_of_readList h
  have hvs := toOption_readList items
  rw [h, toOption_ok] at hvs
  obtain ⟨document', hdocument, heq⟩ := Option.map_eq_some_iff.mp hvs.symm
  cases heq
  exact items.closes.imp fun cs rest items =>
    eq_ok_of_toOption (by rw [toOption_readList items, hdocument]; rfl)

/-! ### Whole documents -/

/-- **A document ends with its bracket**, whatever follows. -/
theorem closes_readFrom {cs rest : List Char} {document : Document}
    (h : readFrom cs = .ok (document, rest)) :
    Closes (fun cs rest => readFrom cs = .ok (document, rest)) cs rest := by
  unfold readFrom at h
  split at h
  · rename_i text hcs
    refine ((closes_skipBlanks hcs).peeks.closes (closes_readParts _ h)).imp ?_
    rintro cs rest ⟨text, hcs, hparts⟩
    rw [readFrom, hcs]
    exact hparts _ (Nat.lt_succ_self _)
  · rename_i text hcs
    refine ((closes_skipBlanks hcs).peeks.closes (closes_readList h)).imp ?_
    rintro cs rest ⟨text, hcs, hlist⟩
    rw [readFrom, hcs]
    exact hlist
  · cases h

theorem finish_eq_ok_iff {cs : List Char} : finish cs = .ok () ↔ skipBlanks cs = [] := by
  unfold finish
  cases skipBlanks cs <;> simp

/-- Reading a whole text once the document in front is read. -/
theorem read_of_readFrom {text : String} {document : Document} {rest : List Char}
    (h : readFrom text.toList = .ok (document, rest)) :
    Document.read text = (finish rest).map fun _ => document := by
  simp only [Document.read, h, bind, Except.bind]
  cases finish rest <;> rfl

/-- The blanks that may stand between the parts of a text. -/
def blanks : List Char := [' ', '\t', '\n', '\r']

theorem isBlank_iff {c : Char} : isBlank c = true ↔ c ∈ blanks := by
  simp only [isBlank, blanks, Bool.or_eq_true, decide_eq_true_eq, List.mem_cons, List.not_mem_nil]
  tauto

theorem skipBlanks_eq_nil_iff {cs : List Char} : skipBlanks cs = [] ↔ ∀ c ∈ cs, c ∈ blanks := by
  simp only [skipBlanks, List.dropWhile_eq_nil_iff, isBlank_iff]

/-- The characters of a text without the blanks at its end. -/
def core (text : String) : List Char := text.toList.rdropWhile (· ∈ blanks)

theorem core_eq {text : String} {part rest : List Char} {c : Char}
    (htext : text.toList = part ++ c :: rest) (hc : c ∉ blanks) (hrest : ∀ d ∈ rest, d ∈ blanks) :
    core text = part ++ [c] := by
  have hreverse : text.toList.reverse = rest.reverse ++ (part ++ [c]).reverse := by simp [htext]
  have hblanks : ∀ d ∈ rest.reverse, decide (d ∈ blanks) = true := by simpa using hrest
  rw [core, List.rdropWhile, hreverse, List.dropWhile_append_of_pos hblanks]
  simp [hc]

/-- A text that is accepted is a part that reads as the document before any other text, and blanks. -/
theorem exists_part_of_read {text : String} {document : Document}
    (h : Document.read text = .ok document) : ∃ part c rest,
      text.toList = part ++ c :: rest ∧ core text = part ++ [c] ∧ (∀ d ∈ rest, d ∈ blanks) ∧
        ∀ tail, readFrom (part ++ c :: tail) = .ok (document, tail) := by
  obtain ⟨⟨document', rest⟩, hfrom, h⟩ := bind_eq_ok_iff.mp h
  obtain ⟨⟨⟩, hfinish, h⟩ := bind_eq_ok_iff.mp h
  cases h
  obtain ⟨part, c, hc, htext, hpart⟩ := closes_readFrom hfrom
  have hrest := skipBlanks_eq_nil_iff.mp (finish_eq_ok_iff.mp hfinish)
  have hcore := core_eq htext (by rw [← isBlank_iff, hc]; exact Bool.false_ne_true) hrest
  exact ⟨part, c, rest, htext, hcore, hrest, hpart⟩

/-- What follows an accepted text is what is left when its document is read. -/
theorem read_append {text : String} {document : Document} (h : Document.read text = .ok document)
    (s : String) : Document.read (text ++ s) = (finish s.toList).map fun _ => document := by
  obtain ⟨part, c, rest, htext, -, hrest, hpart⟩ := exists_part_of_read h
  have hfrom : readFrom (text ++ s).toList = .ok (document, rest ++ s.toList) := by
    rw [String.toList_append, htext, List.append_assoc, List.cons_append]
    exact hpart _
  have hskip : skipBlanks (rest ++ s.toList) = skipBlanks s.toList :=
    skipBlanks_append (fun d hd => isBlank_iff.mpr (hrest d hd)) _
  rw [read_of_readFrom hfrom, finish, finish, hskip]

/-- No accepted text is the beginning of another, but for the blanks at its end. -/
theorem core_eq_of_isPrefix {text text' : String} {document document' : Document}
    (h : Document.read text = .ok document) (h' : Document.read text' = .ok document')
    (hbegins : core text <+: core text') : core text = core text' := by
  obtain ⟨part, c, rest, -, hcore, -, hpart⟩ := exists_part_of_read h
  obtain ⟨part', c', rest', -, hcore', -, hpart'⟩ := exists_part_of_read h'
  obtain ⟨extra, hextra⟩ := hbegins
  -- the second text is read to its own end, and to the end of the first
  have hboth : part' ++ c' :: rest' = part ++ c :: (extra ++ rest') := by
    rw [hcore, hcore'] at hextra
    simpa using congrArg (· ++ rest') hextra.symm
  have hread := hpart' rest'
  rw [hboth, hpart] at hread
  have hnil : extra = [] := by simpa using (Prod.mk.inj (Except.ok.inj hread)).2
  rw [← hextra, hnil, List.append_nil]

theorem ofText_eq_ok_iff {path : Path} {text : String} {document : Document} :
    ofText path text = .ok document ↔ Document.read text = .ok document := by
  unfold ofText
  cases Document.read text <;> simp

/-- **A document fills its text.** After an accepted text blanks change nothing, and anything else is
a fault at its first character that is no blank. So no accepted text is the beginning of another,
but for the blanks at its end. -/
theorem ofText_append {path : Path} {text : String} {document : Document}
    (h : ofText path text = .ok document) :
    (∀ s : String, (∀ c ∈ s.toList, c ∈ blanks) → ofText path (text ++ s) = .ok document) ∧
    (∀ s : String, (¬ ∀ c ∈ s.toList, c ∈ blanks) → ofText path (text ++ s) =
      .error (.decode path (text ++ s) ⟨.trailingCharacters, skipBlanks s.toList, 1⟩)) ∧
    ∀ (path' : Path) (text' : String) (document' : Document), ofText path' text' = .ok document' →
      core text <+: core text' → core text = core text' := by
  rw [ofText_eq_ok_iff] at h
  refine ⟨fun s hs => ?_, fun s hs => ?_, fun path' text' document' h' hbegins => ?_⟩
  · rw [ofText_eq_ok_iff, read_append h, finish_eq_ok_iff.mpr (skipBlanks_eq_nil_iff.mpr hs)]
    rfl
  · have hskip : skipBlanks s.toList ≠ [] := mt skipBlanks_eq_nil_iff.mp hs
    obtain ⟨c, cs, hcs⟩ := List.exists_cons_of_ne_nil hskip
    rw [ofText, read_append h, finish, hcs]
    rfl
  · exact core_eq_of_isPrefix h (ofText_eq_ok_iff.mp h') hbegins

/-- What is passed over may hold what cannot be read. A space that is no blank is a fault. -/
theorem ofText_append_to_ignored :
    let path := Path.ofText "x"
    let text := "\x7b\"source\": \"\", \"x\": [\"\\ud800\", 1e999]\x7d\n"
    ofText path text = .ok ⟨none, "", none⟩ ∧
      ofText path (text ++ "\t\r") = .ok ⟨none, "", none⟩ ∧
      ofText path (text ++ " \u00a0") =
        .error (.decode path (text ++ " \u00a0") ⟨.trailingCharacters, ['\u00a0'], 1⟩) ∧
      core text = core (text ++ "\t\r") := by
  intro path text
  have hparts : (Document.read text).toOption.map (fun document =>
      (document.filePath, document.source, document.tree.isNone)) = some (none, "", true) := by
    decide +kernel
  obtain ⟨⟨file, source, tree⟩, hsome, hdocument⟩ := Option.map_eq_some_iff.mp hparts
  obtain ⟨rfl, rfl, rfl⟩ : file = none ∧ source = "" ∧ tree = none := by simpa using hdocument
  have hread : Document.read text = .ok ⟨none, "", none⟩ := eq_ok_of_toOption hsome
  have hpath : ofText path text = .ok ⟨none, "", none⟩ := ofText_eq_ok_iff.mpr hread
  obtain ⟨hblanks, hothers, hbegins⟩ := ofText_append hpath
  have happend := hblanks "\t\r" (by simp [blanks])
  have hcore : core text <+: core (text ++ "\t\r") := by decide +kernel
  exact ⟨hpath, happend, hothers " \u00a0" (by simp [blanks]), hbegins path _ _ happend hcore⟩

end Document

end NamedTree
