import NamedTree.Proofs.Json.Doubles
import NamedTree.Proofs.Json.Grammar
import NamedTree.Proofs.Json.Scalar

/-! # Written values are read back

The compact and the indented text of a value differ in blanks only. A `Spacing` says which blanks
stand at the beginning of a line and after a colon; `Spacing.write` is the text of a value with any
spacing, and the two printers are instances of it (`write_tight`, `write_wide`).

A text with any spacing is read back (`Spacing.isValue_write`), as long as the value has no doubles,
so the texts of both printers are (`read_toCompact`, `read_toPretty`). The induction follows the
value. What comes after a value in the text matters for integers, which end only where no number can
go on: a comma, a closing bracket and a blank end them all. -/

namespace NamedTree.Json

/-- The blanks of a text: what begins a line at a level, and what follows a colon. -/
structure Spacing where
  line : ℕ → List Char
  colon : List Char
  isBlank_line : ∀ level, ∀ c ∈ line level, isBlank c = true
  isBlank_colon : ∀ c ∈ colon, isBlank c = true

namespace Spacing

/-- No blanks at all. -/
def tight : Spacing where
  line _ := []
  colon := []
  isBlank_line := by simp
  isBlank_colon := by simp

/-- A line for each part, indented by its level, and a space after the colon. -/
def wide : Spacing where
  line := newline
  colon := [' ']
  isBlank_line level c hc := by
    rcases List.mem_cons.mp hc with rfl | hc
    · rfl
    · rw [List.eq_of_mem_replicate hc]
      rfl
  isBlank_colon := by simp [isBlank]

mutual
/-- The text of a value that stands at the given level. -/
def write (s : Spacing) (level : ℕ) : Json → List Char
  | .arr (item :: items) =>
    '[' :: s.line (level + 1) ++ (write s (level + 1) item ++
      (writeItems s (level + 1) items ++ (s.line level ++ [']'])))
  | .obj ((key, v) :: entries) =>
    '\x7b' :: s.line (level + 1) ++ (quote key ++ (':' :: s.colon ++ (write s (level + 1) v ++
      (writeEntries s (level + 1) entries ++ (s.line level ++ ['\x7d'])))))
  | v => scalar v

/-- The items after the first, each after its comma. -/
def writeItems (s : Spacing) (level : ℕ) : List Json → List Char
  | [] => []
  | item :: items => ',' :: s.line level ++ (write s level item ++ writeItems s level items)

/-- The entries after the first, each after its comma. -/
def writeEntries (s : Spacing) (level : ℕ) : List (String × Json) → List Char
  | [] => []
  | (key, v) :: entries =>
    ',' :: s.line level ++ (quote key ++ (':' :: s.colon ++ (write s level v ++
      writeEntries s level entries)))
end

/-! ### The two printers -/

mutual
theorem write_tight (level : ℕ) : ∀ v, tight.write level v = compact v
  | .arr (item :: items) => by
    rw [write, compact, write_tight, writeItems_tight]
    rfl
  | .obj ((key, v) :: entries) => by
    rw [write, compact, write_tight, writeEntries_tight]
    simp [tight]
  | .null | .bool _ | .int _ | .float _ | .str _ | .arr [] | .obj [] => by
    simp only [write, compact]

theorem writeItems_tight (level : ℕ) : ∀ items, tight.writeItems level items = compactItems items
  | [] => by rw [writeItems, compactItems]
  | item :: items => by
    rw [writeItems, compactItems, write_tight, writeItems_tight]
    rfl

theorem writeEntries_tight (level : ℕ) : ∀ entries,
    tight.writeEntries level entries = compactEntries entries
  | [] => by rw [writeEntries, compactEntries]
  | (key, v) :: entries => by
    rw [writeEntries, compactEntries, write_tight, writeEntries_tight]
    simp [tight]
end

mutual
theorem write_wide (level : ℕ) : ∀ v, wide.write level v = prettyAt level v
  | .arr (item :: items) => by
    rw [write, prettyAt, write_wide, writeItems_wide]
    rfl
  | .obj ((key, v) :: entries) => by
    rw [write, prettyAt, write_wide, writeEntries_wide]
    simp [wide]
  | .null | .bool _ | .int _ | .float _ | .str _ | .arr [] | .obj [] => by
    simp only [write, prettyAt]

theorem writeItems_wide (level : ℕ) : ∀ items, wide.writeItems level items = prettyItems level items
  | [] => by rw [writeItems, prettyItems]
  | item :: items => by
    rw [writeItems, prettyItems, write_wide, writeItems_wide]
    rfl

theorem writeEntries_wide (level : ℕ) : ∀ entries,
    wide.writeEntries level entries = prettyEntries level entries
  | [] => by rw [writeEntries, prettyEntries]
  | (key, v) :: entries => by
    rw [writeEntries, prettyEntries, write_wide, writeEntries_wide]
    simp [wide]
end

end Spacing

/-! ### Blanks -/

theorem skipBlanks_append {blanks : List Char} (h : ∀ c ∈ blanks, isBlank c = true)
    (cs : List Char) : skipBlanks (blanks ++ cs) = skipBlanks cs :=
  List.dropWhile_append_of_pos h

theorem endsNumber_cons {c : Char} (h : isBlank c = true ∨ c = ',' ∨ c = ']' ∨ c = '\x7d')
    (cs : List Char) : EndsNumber (c :: cs) := by
  intro d hd
  obtain rfl : c = d := by simpa using hd
  simp only [isBlank, Bool.or_eq_true, decide_eq_true_eq] at h
  rcases h with ((((rfl | rfl) | rfl) | rfl) | rfl | rfl | rfl) <;> decide

theorem endsNumber_append {blanks : List Char} (h : ∀ c ∈ blanks, isBlank c = true)
    {cs : List Char} (hcs : EndsNumber cs) : EndsNumber (blanks ++ cs) := by
  cases blanks with
  | nil => exact hcs
  | cons c blanks => exact endsNumber_cons (Or.inl (h c List.mem_cons_self)) _

/-! ### The parts of a text -/

section Parts
variable {cs rest blanks : List Char} {v : Json}

theorem IsValue.append (h : IsValue cs v rest) (hblanks : ∀ c ∈ blanks, isBlank c = true) :
    IsValue (blanks ++ cs) v rest :=
  h.of_skipBlanks_eq (skipBlanks_append hblanks cs)

/-- A value may be read from its first character on, which does not close a list. -/
theorem exists_cons_of_isValue (h : IsValue cs v rest) :
    ∃ c text, skipBlanks cs = c :: text ∧ c ≠ ']' ∧ IsValue (c :: text) v rest := by
  have hhead : ∃ c text, skipBlanks cs = c :: text ∧ c ≠ ']' := by
    cases h with
    | list h items => exact ⟨_, _, h, by decide⟩
    | object h entries => exact ⟨_, _, h, by decide⟩
    | leaf h hlist hobject value =>
      refine ⟨_, _, h, ?_⟩
      rintro rfl
      cases value
  obtain ⟨c, text, hcs, hc⟩ := hhead
  exact ⟨c, text, hcs, hc, h.of_skipBlanks_eq (by rw [← hcs, skipBlanks_skipBlanks])⟩

theorem isValue_of_readLeaf (h : readLeaf cs = .ok (v, rest)) : IsValue cs v rest := by
  cases cs with
  | nil => cases h
  | cons c cs =>
    have hblank : isBlank c = false := by
      by_contra hblank
      simp only [isBlank, Bool.not_eq_false, Bool.or_eq_true, decide_eq_true_eq] at hblank
      rcases hblank with ((rfl | rfl) | rfl) | rfl <;> cases h
    refine .leaf (skipBlanks_cons hblank) ?_ ?_ h
    · rintro rfl
      cases h
    · rintro rfl
      cases h

variable {middle : List Char} {vs : List Json}

theorem AreItems.first (value : IsValue cs v middle) (others : AreItems false middle vs rest) :
    AreItems true cs (v :: vs) rest := by
  obtain ⟨c, text, hcs, hc, value⟩ := exists_cons_of_isValue value
  refine .item ?_ value others
  rw [nextItem, hcs]
  simp only [if_neg hc, if_true]

theorem AreItems.comma (value : IsValue cs v middle) (others : AreItems false middle vs rest) :
    AreItems false (',' :: cs) (v :: vs) rest := by
  obtain ⟨c, text, hcs, hc, value⟩ := exists_cons_of_isValue value
  refine .item ?_ value others
  rw [nextItem, skipBlanks_cons rfl]
  simp [hcs, hc]

theorem AreItems.nil (first : Bool) (hblanks : ∀ c ∈ blanks, isBlank c = true) :
    AreItems first (blanks ++ ']' :: rest) [] rest := by
  refine .close ?_
  rw [nextItem, skipBlanks_append hblanks, skipBlanks_cons rfl]
  rfl

variable (key : String) {entries : List (String × Json)}

theorem skipBlanks_quote (hblanks : ∀ c ∈ blanks, isBlank c = true) :
    skipBlanks (blanks ++ (quote key ++ cs)) =
      '"' :: (key.toList.flatMap escape ++ '"' :: cs) := by
  rw [skipBlanks_append hblanks, quote_append, skipBlanks_cons rfl]

theorem readColon_cons (cs : List Char) : readColon (':' :: cs) = .ok cs := by
  rw [readColon, skipBlanks_cons rfl]
  rfl

theorem AreEntries.first (hblanks : ∀ c ∈ blanks, isBlank c = true) (value : IsValue cs v middle)
    (others : AreEntries false middle entries rest) :
    AreEntries true (blanks ++ (quote key ++ ':' :: cs)) ((key, v) :: entries) rest := by
  refine .entry ?_ (readString_quote key _) (readColon_cons cs) value others
  rw [nextKey, skipBlanks_quote key hblanks]
  rfl

theorem AreEntries.comma (hblanks : ∀ c ∈ blanks, isBlank c = true) (value : IsValue cs v middle)
    (others : AreEntries false middle entries rest) :
    AreEntries false (',' :: (blanks ++ (quote key ++ ':' :: cs))) ((key, v) :: entries) rest := by
  refine .entry ?_ (readString_quote key _) (readColon_cons cs) value others
  rw [nextKey, skipBlanks_cons rfl]
  simp [skipBlanks_quote key hblanks]

theorem AreEntries.nil (first : Bool) (hblanks : ∀ c ∈ blanks, isBlank c = true) :
    AreEntries first (blanks ++ '\x7d' :: rest) [] rest := by
  refine .close ?_
  rw [nextKey, skipBlanks_append hblanks, skipBlanks_cons rfl]
  rfl

end Parts

/-! ### Reading back -/

namespace Spacing

variable (s : Spacing)

/-- A number ends before the other items of its list. -/
theorem endsNumber_writeItems (level outer : ℕ) (items : List Json) (rest : List Char) :
    EndsNumber (s.writeItems level items ++ (s.line outer ++ ']' :: rest)) := by
  cases items with
  | nil =>
    rw [writeItems, List.nil_append]
    exact endsNumber_append (s.isBlank_line outer) (endsNumber_cons (by simp) rest)
  | cons item items =>
    rw [writeItems]
    exact endsNumber_cons (by simp) _

/-- A number ends before the other entries of its object. -/
theorem endsNumber_writeEntries (level outer : ℕ) (entries : List (String × Json))
    (rest : List Char) :
    EndsNumber (s.writeEntries level entries ++ (s.line outer ++ '\x7d' :: rest)) := by
  cases entries with
  | nil =>
    rw [writeEntries, List.nil_append]
    exact endsNumber_append (s.isBlank_line outer) (endsNumber_cons (by simp) rest)
  | cons entry entries =>
    rw [writeEntries]
    exact endsNumber_cons (by simp) _

mutual
/-- **A written value is read back, whatever the blanks.** -/
theorem isValue_write (level : ℕ) : ∀ (v : Json) (rest : List Char), v.doubles = [] →
    EndsNumber rest → IsValue (s.write level v ++ rest) v rest
  | .null, rest, _, _ => by
    simp only [write]
    exact isValue_of_readLeaf (readLeaf_null rest)
  | .bool b, rest, _, _ => by
    simp only [write]
    exact isValue_of_readLeaf (readLeaf_bool b rest)
  | .int n, rest, _, hrest => by
    simp only [write]
    exact isValue_of_readLeaf (readLeaf_integer n hrest)
  | .float x, rest, hdoubles, _ => by
    rw [doubles] at hdoubles
    cases hdoubles
  | .str text, rest, _, _ => by
    simp only [write]
    exact isValue_of_readLeaf (readLeaf_quote text rest)
  | .arr [], rest, _, _ => by
    simp only [write]
    exact .list (skipBlanks_cons rfl) (.close rfl)
  | .obj [], rest, _, _ => by
    simp only [write]
    exact .object (skipBlanks_cons rfl) (.close rfl)
  | .arr (item :: items), rest, hdoubles, _ => by
    rw [doubles, itemDoubles, List.append_eq_nil_iff] at hdoubles
    have hothers := areItems_write (level + 1) level items rest hdoubles.2
    have hitem := isValue_write (level + 1) item _ hdoubles.1
      (s.endsNumber_writeItems (level + 1) level items rest)
    rw [write]
    refine .list (skipBlanks_cons rfl) (AreItems.first ?_ hothers)
    simpa using hitem.append (s.isBlank_line (level + 1))
  | .obj ((key, v) :: entries), rest, hdoubles, _ => by
    rw [doubles, entryDoubles, List.append_eq_nil_iff] at hdoubles
    have hothers := areEntries_write (level + 1) level entries rest hdoubles.2
    have hvalue := isValue_write (level + 1) v _ hdoubles.1
      (s.endsNumber_writeEntries (level + 1) level entries rest)
    have hentries := AreEntries.first key (s.isBlank_line (level + 1))
      (hvalue.append s.isBlank_colon) hothers
    rw [write]
    refine .object (skipBlanks_cons rfl) ?_
    simpa using hentries

theorem areItems_write (level outer : ℕ) : ∀ (items : List Json) (rest : List Char),
    itemDoubles items = [] →
      AreItems false (s.writeItems level items ++ (s.line outer ++ ']' :: rest)) items rest
  | [], rest, _ => by
    rw [writeItems]
    exact .nil false (s.isBlank_line outer)
  | item :: items, rest, hdoubles => by
    rw [itemDoubles, List.append_eq_nil_iff] at hdoubles
    have hothers := areItems_write level outer items rest hdoubles.2
    have hitem := isValue_write level item _ hdoubles.1
      (s.endsNumber_writeItems level outer items rest)
    rw [writeItems]
    simpa using AreItems.comma (hitem.append (s.isBlank_line level)) hothers

theorem areEntries_write (level outer : ℕ) : ∀ (entries : List (String × Json))
    (rest : List Char), entryDoubles entries = [] →
      AreEntries false (s.writeEntries level entries ++ (s.line outer ++ '\x7d' :: rest)) entries
        rest
  | [], rest, _ => by
    rw [writeEntries]
    exact .nil false (s.isBlank_line outer)
  | (key, v) :: entries, rest, hdoubles => by
    rw [entryDoubles, List.append_eq_nil_iff] at hdoubles
    have hothers := areEntries_write level outer entries rest hdoubles.2
    have hvalue := isValue_write level v _ hdoubles.1
      (s.endsNumber_writeEntries level outer entries rest)
    rw [writeEntries]
    simpa using AreEntries.comma key (s.isBlank_line level)
      (hvalue.append s.isBlank_colon) hothers
end

/-- A text that is a value with nothing after it is read as that value. -/
theorem readText_write (v : Json) (h : v.doubles = []) : readText none (s.write 0 v) = .ok v := by
  have hvalue := s.isValue_write 0 v [] h endsNumber_nil
  rw [List.append_nil] at hvalue
  rw [readText, hvalue.readValue_eq _ (by rw [steps]; omega)]
  rfl

end Spacing

/-- **The text without blanks is read back.** -/
theorem read_toCompact (v : Json) (h : v.doubles = []) : read v.toCompact = .ok v := by
  rw [read, toCompact, String.toList_ofList, ← Spacing.write_tight 0]
  exact Spacing.tight.readText_write v h

/-- What has no doubles and is written alike is the same value. -/
theorem eq_of_toCompact_eq {v w : Json} (hv : v.doubles = []) (hw : w.doubles = [])
    (h : v.toCompact = w.toCompact) : v = w := by
  have hread := read_toCompact v hv
  rw [h, read_toCompact w hw] at hread
  exact (Except.ok.inj hread).symm

/-- A text reads as a value without doubles if what it reads as is written like that value. -/
theorem read_eq_of_toCompact_eq {text : String} {v : Json} (hv : v.doubles = [])
    (h : (read text).toOption.map (fun w => (w.doubles.isEmpty, w.toCompact)) =
      some (true, v.toCompact)) : read text = .ok v := by
  cases hread : read text with
  | error fault =>
    rw [hread] at h
    cases h
  | ok w =>
    rw [hread] at h
    obtain ⟨hdoubles, hcompact⟩ := Prod.mk.inj (Option.some.inj h)
    rw [eq_of_toCompact_eq (List.isEmpty_iff.mp hdoubles) hv hcompact]

/-- **The indented text is read back.** -/
theorem read_toPretty (v : Json) (h : v.doubles = []) : read v.toPretty = .ok v := by
  rw [read, toPretty, String.toList_ofList, pretty, ← Spacing.write_wide 0]
  exact Spacing.wide.readText_write v h

end NamedTree.Json
