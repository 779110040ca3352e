import NamedTree.Proofs.Json.Leaf
import Mathlib.Data.List.DropRight

/-! # The texts of JSON values

`IsValue cs v rest` says that the text `cs` begins with the value `v` and goes on with `rest`. It is
reading without a bound on the steps and on the nesting:

* what is read is a value in this sense (`isValue_of_readValue`);
* a value in this sense is read, whatever the number of steps beyond what the text needs
  (`IsValue.readValue_eq`);
* passing over it ends at the same place (`IsValue.skipValue_eq`).

`AreItems` and `AreEntries` are the same for what stands after the opening bracket of a list or an
object, or after one of its parts. Each part takes at least one character of the text, and a list or
an object takes one more step than its text has parts, so two steps a character are enough. -/

namespace NamedTree.Json

mutual
/-- The text begins with the value and goes on with the rest. -/
inductive IsValue : List Char → Json → List Char → Prop where
  | list (h : skipBlanks cs = '[' :: text) (items : AreItems true text vs rest) :
    IsValue cs (.arr vs) rest
  | object (h : skipBlanks cs = '\x7b' :: text) (entries : AreEntries true text vs rest) :
    IsValue cs (.obj vs) rest
  | leaf (h : skipBlanks cs = c :: text) (hlist : c ≠ '[') (hobject : c ≠ '\x7b')
    (value : readLeaf (c :: text) = .ok (v, rest)) : IsValue cs v rest

/-- The text goes on with the items of a list to its end, before the first one or after another. -/
inductive AreItems : Bool → List Char → List Json → List Char → Prop where
  | close (h : nextItem first cs = .ok (.close rest)) : AreItems first cs [] rest
  | item (h : nextItem first cs = .ok (.item text)) (value : IsValue text v middle)
    (others : AreItems false middle vs rest) : AreItems first cs (v :: vs) rest

/-- The text goes on with the entries of an object to its end, before the first one or after
another. -/
inductive AreEntries : Bool → List Char → List (String × Json) → List Char → Prop where
  | close (h : nextKey first cs = .ok (.close rest)) : AreEntries first cs [] rest
  | entry (h : nextKey first cs = .ok (.item quoted)) (hkey : readString quoted = .ok (key, cs'))
    (hcolon : readColon cs' = .ok text) (value : IsValue text v middle)
    (others : AreEntries false middle vs rest) : AreEntries first cs ((key, v) :: vs) rest
end

/-- Blanks before a value do not matter. -/
theorem IsValue.of_skipBlanks_eq {cs cs' rest : List Char} {v : Json} (h : IsValue cs v rest)
    (hblanks : skipBlanks cs' = skipBlanks cs) : IsValue cs' v rest := by
  cases h with
  | list h items => exact .list (hblanks.trans h) items
  | object h entries => exact .object (hblanks.trans h) entries
  | leaf h hlist hobject value => exact .leaf (hblanks.trans h) hlist hobject value

/-! ### What is read is a value -/

/-- One induction on the steps for values, lists and objects. -/
theorem isValue_of_reads (fuel : ℕ) :
    (∀ room cs v rest, readValue room fuel cs = .ok (v, rest) → IsValue cs v rest) ∧
    (∀ room first acc cs v rest, readItems room fuel first acc cs = .ok (v, rest) →
      ∃ vs, v = .arr (acc.reverse ++ vs) ∧ AreItems first cs vs rest) ∧
    (∀ room first acc cs v rest, readEntries room fuel first acc cs = .ok (v, rest) →
      ∃ vs, v = .obj (acc.reverse ++ vs) ∧ AreEntries first cs vs rest) := by
  induction fuel with
  | zero =>
    refine ⟨fun room cs v rest h => ?_, fun room first acc cs v rest h => ?_,
      fun room first acc cs v rest h => ?_⟩
    · rw [readValue] at h; cases h
    · rw [readItems] at h; cases h
    · rw [readEntries] at h; cases h
  | succ fuel ih =>
    obtain ⟨ihValue, ihItems, ihEntries⟩ := ih
    refine ⟨fun room cs v rest h => ?_, fun room first acc cs v rest h => ?_,
      fun room first acc cs v rest h => ?_⟩
    · rw [readValue] at h
      split at h
      · cases h
      · rename_i c text hcs
        split_ifs at h with hlist hobject
        · split at h
          · cases h
          · obtain ⟨vs, rfl, hitems⟩ := ihItems _ _ _ _ _ _ h
            exact .list (hlist ▸ hcs) hitems
        · split at h
          · cases h
          · obtain ⟨vs, rfl, hentries⟩ := ihEntries _ _ _ _ _ _ h
            exact .object (hobject ▸ hcs) hentries
        · exact .leaf hcs hlist hobject h
    · rw [readItems] at h
      split at h
      · cases h
      · rename_i rest' hnext
        cases h
        exact ⟨[], by rw [List.append_nil], .close hnext⟩
      · rename_i text hnext
        split at h
        · cases h
        · rename_i w middle hvalue
          obtain ⟨vs, rfl, hitems⟩ := ihItems _ _ _ _ _ _ h
          refine ⟨w :: vs, by simp, .item hnext (ihValue _ _ _ _ hvalue) hitems⟩
    · rw [readEntries] at h
      split at h
      · cases h
      · rename_i rest' hnext
        cases h
        exact ⟨[], by rw [List.append_nil], .close hnext⟩
      · rename_i quoted hnext
        split at h
        · cases h
        · rename_i key cs' hkey
          split at h
          · cases h
          · rename_i text hcolon
            split at h
            · cases h
            · rename_i w middle hvalue
              obtain ⟨vs, rfl, hentries⟩ := ihEntries _ _ _ _ _ _ h
              exact ⟨(key, w) :: vs, by simp,
                .entry hnext hkey hcolon (ihValue _ _ _ _ hvalue) hentries⟩

/-- **What is read is a value.** -/
theorem isValue_of_readValue {room : Option ℕ} {fuel : ℕ} {cs rest : List Char} {v : Json}
    (h : readValue room fuel cs = .ok (v, rest)) : IsValue cs v rest :=
  (isValue_of_reads fuel).1 room cs v rest h

/-! ### Moving forward -/

theorem length_skipBlanks_le (cs : List Char) : (skipBlanks cs).length ≤ cs.length :=
  (List.dropWhile_sublist _).length_le

theorem skipBlanks_cons {c : Char} {cs : List Char} (h : isBlank c = false) :
    skipBlanks (c :: cs) = c :: cs :=
  List.dropWhile_cons_of_neg (by rw [h]; exact Bool.false_ne_true)

theorem length_of_skipBlanks_cons {cs text : List Char} {c : Char} (h : skipBlanks cs = c :: text) :
    text.length < cs.length := by
  have := length_skipBlanks_le cs
  rw [h, List.length_cons] at this
  omega

theorem nextItem_eq_close {first : Bool} {cs rest : List Char}
    (h : nextItem first cs = .ok (.close rest)) : skipBlanks cs = ']' :: rest := by
  unfold nextItem at h
  split at h
  · cases h
  · rename_i c text hcs
    split_ifs at h with hclose hfirst hcomma
    · cases h
      rw [hcs, hclose]
    · cases h
    · split at h
      · cases h
      · split_ifs at h
        cases h

/-- The text of an item: after the bracket, or after a comma. -/
theorem nextItem_eq_item {first : Bool} {cs text : List Char}
    (h : nextItem first cs = .ok (.item text)) :
    (∃ c tail, text = c :: tail ∧ c ≠ ']') ∧
      (first = true ∧ skipBlanks cs = text ∨
        first = false ∧ ∃ tail, skipBlanks cs = ',' :: tail ∧ skipBlanks tail = text) := by
  unfold nextItem at h
  split at h
  · cases h
  · rename_i c tail hcs
    split_ifs at h with hclose hfirst hcomma
    · cases h
    · cases h
      exact ⟨⟨c, tail, rfl, hclose⟩, Or.inl ⟨hfirst, hcs⟩⟩
    · split at h
      · cases h
      · rename_i d tail' htail
        split_ifs at h with hd
        cases h
        exact ⟨⟨d, tail', rfl, hd⟩, Or.inr ⟨by simpa using hfirst, tail, hcomma ▸ hcs, htail⟩⟩

theorem nextKey_eq_close {first : Bool} {cs rest : List Char}
    (h : nextKey first cs = .ok (.close rest)) : skipBlanks cs = '\x7d' :: rest := by
  unfold nextKey at h
  split at h
  · cases h
  · rename_i c text hcs
    split_ifs at h with hclose hfirst hquote hcomma
    · cases h
      rw [hcs, hclose]
    · cases h
    · split at h
      · cases h
      · split_ifs at h
        cases h

/-- The text of an entry, after the quotation mark of its key. -/
theorem nextKey_eq_item {first : Bool} {cs quoted : List Char}
    (h : nextKey first cs = .ok (.item quoted)) :
    first = true ∧ skipBlanks cs = '"' :: quoted ∨
      first = false ∧ ∃ tail, skipBlanks cs = ',' :: tail ∧ skipBlanks tail = '"' :: quoted := by
  unfold nextKey at h
  split at h
  · cases h
  · rename_i c tail hcs
    split_ifs at h with hclose hfirst hquote hcomma
    · cases h
    · cases h
      exact Or.inl ⟨hfirst, hquote ▸ hcs⟩
    · split at h
      · cases h
      · rename_i d tail' htail
        split_ifs at h with hd
        cases h
        exact Or.inr ⟨by simpa using hfirst, tail, hcomma ▸ hcs, hd ▸ htail⟩

theorem readColon_eq_ok {cs text : List Char} (h : readColon cs = .ok text) :
    skipBlanks cs = ':' :: text := by
  unfold readColon at h
  split at h
  · cases h
  · rename_i c tail hcs
    split_ifs at h with hc
    cases h
    rw [hcs, hc]

theorem length_of_nextItem {first : Bool} {cs text : List Char}
    (h : nextItem first cs = .ok (.item text)) : text.length ≤ cs.length := by
  rcases (nextItem_eq_item h).2 with ⟨-, rfl⟩ | ⟨-, tail, hcs, rfl⟩
  · exact length_skipBlanks_le cs
  · have := length_of_skipBlanks_cons hcs
    have := length_skipBlanks_le tail
    omega

theorem length_of_nextKey {first : Bool} {cs quoted : List Char}
    (h : nextKey first cs = .ok (.item quoted)) : quoted.length < cs.length := by
  rcases nextKey_eq_item h with ⟨-, hcs⟩ | ⟨-, tail, hcs, htail⟩
  · exact length_of_skipBlanks_cons hcs
  · have := length_of_skipBlanks_cons hcs
    have := length_of_skipBlanks_cons htail
    omega

mutual
/-- A value takes at least one character of the text. -/
theorem IsValue.length_lt : ∀ {cs : List Char} {v : Json} {rest : List Char}, IsValue cs v rest →
    rest.length < cs.length
  | _, _, _, .list h items => by
    have := length_of_skipBlanks_cons h
    have := items.length_lt
    omega
  | _, _, _, .object h entries => by
    have := length_of_skipBlanks_cons h
    have := entries.length_lt
    omega
  | cs, _, _, .leaf h _ _ value => by
    have := length_skipBlanks_le cs
    have := (readLeaf_eq_ok value).length_lt
    rw [← h] at this
    omega

theorem AreItems.length_lt : ∀ {first : Bool} {cs : List Char} {vs : List Json} {rest : List Char},
    AreItems first cs vs rest → rest.length < cs.length
  | _, _, _, _, .close h => length_of_skipBlanks_cons (nextItem_eq_close h)
  | _, _, _, _, .item h value others => by
    have := length_of_nextItem h
    have := value.length_lt
    have := others.length_lt
    omega

theorem AreEntries.length_lt : ∀ {first : Bool} {cs : List Char} {vs : List (String × Json)}
    {rest : List Char}, AreEntries first cs vs rest → rest.length < cs.length
  | _, _, _, _, .close h => length_of_skipBlanks_cons (nextKey_eq_close h)
  | _, _, _, _, .entry h hkey hcolon value others => by
    have := length_of_nextKey h
    have := length_of_readString hkey
    have := length_of_skipBlanks_cons (readColon_eq_ok hcolon)
    have := value.length_lt
    have := others.length_lt
    omega
end

/-! ### Reading a value -/

mutual
/-- **A value is read, with two steps for each character of the text.** -/
theorem IsValue.readValue_eq : ∀ {cs : List Char} {v : Json} {rest : List Char}, IsValue cs v rest →
    ∀ fuel, 2 * cs.length + 1 ≤ fuel → readValue none fuel cs = .ok (v, rest)
  | cs, .arr vs, _, .list h items, fuel, hfuel => by
    have := length_of_skipBlanks_cons h
    obtain ⟨fuel, rfl⟩ : ∃ n, fuel = n + 1 := ⟨fuel - 1, by omega⟩
    rw [readValue, h]
    simp only [if_pos, deeper]
    exact items.readItems_eq fuel (by omega) []
  | cs, .obj vs, _, .object h entries, fuel, hfuel => by
    have := length_of_skipBlanks_cons h
    obtain ⟨fuel, rfl⟩ : ∃ n, fuel = n + 1 := ⟨fuel - 1, by omega⟩
    rw [readValue, h]
    simp only [deeper]
    exact entries.readEntries_eq fuel (by omega) []
  | cs, v, _, .leaf h hlist hobject value, fuel, hfuel => by
    obtain ⟨fuel, rfl⟩ : ∃ n, fuel = n + 1 := ⟨fuel - 1, by omega⟩
    rw [readValue, h]
    simp only [if_neg hlist, if_neg hobject]
    exact value

theorem AreItems.readItems_eq : ∀ {first : Bool} {cs : List Char} {vs : List Json}
    {rest : List Char}, AreItems first cs vs rest → ∀ fuel, 2 * cs.length + 2 ≤ fuel → ∀ acc,
      readItems none fuel first acc cs = .ok (.arr (acc.reverse ++ vs), rest)
  | _, cs, _, _, .close h, fuel, hfuel, acc => by
    obtain ⟨fuel, rfl⟩ : ∃ n, fuel = n + 1 := ⟨fuel - 1, by omega⟩
    rw [readItems, h, List.append_nil]
  | _, cs, v :: vs, _, .item h value others, fuel, hfuel, acc => by
    have := length_of_nextItem h
    have := value.length_lt
    obtain ⟨fuel, rfl⟩ : ∃ n, fuel = n + 1 := ⟨fuel - 1, by omega⟩
    have hothers := others.readItems_eq fuel (by omega) (v :: acc)
    rw [readItems, h]
    simp only [value.readValue_eq fuel (by omega), hothers]
    simp

theorem AreEntries.readEntries_eq : ∀ {first : Bool} {cs : List Char} {vs : List (String × Json)}
    {rest : List Char}, AreEntries first cs vs rest → ∀ fuel, 2 * cs.length + 2 ≤ fuel → ∀ acc,
      readEntries none fuel first acc cs = .ok (.obj (acc.reverse ++ vs), rest)
  | _, cs, _, _, .close h, fuel, hfuel, acc => by
    obtain ⟨fuel, rfl⟩ : ∃ n, fuel = n + 1 := ⟨fuel - 1, by omega⟩
    rw [readEntries, h, List.append_nil]
  | _, cs, (key, v) :: vs, _, .entry h hkey hcolon value others, fuel, hfuel, acc => by
    have := length_of_nextKey h
    have := length_of_readString hkey
    have := length_of_skipBlanks_cons (readColon_eq_ok hcolon)
    have := value.length_lt
    obtain ⟨fuel, rfl⟩ : ∃ n, fuel = n + 1 := ⟨fuel - 1, by omega⟩
    have hothers := others.readEntries_eq fuel (by omega) ((key, v) :: acc)
    rw [readEntries, h]
    simp only [hkey, hcolon, value.readValue_eq fuel (by omega), hothers]
    simp
end

/-! ### Passing over a value -/

theorem skipBlanks_skipBlanks (cs : List Char) : skipBlanks (skipBlanks cs) = skipBlanks cs :=
  List.dropWhile_idempotent _ _

theorem skipValue_skipBlanks (fuel : ℕ) (cs : List Char) :
    skipValue (fuel + 1) (skipBlanks cs) = skipValue (fuel + 1) cs := by
  rw [skipValue, skipValue, skipBlanks_skipBlanks]

theorem skipKey_eq {cs quoted cs' text : List Char} {key : String}
    (h : skipBlanks cs = '"' :: quoted) (hkey : readString quoted = .ok (key, cs'))
    (hcolon : readColon cs' = .ok text) : skipKey cs = .ok text := by
  rw [skipKey, h]
  simp only [if_pos, skipString_of_readString hkey]
  exact hcolon

mutual
/-- **Passing over a value ends where reading it does.** -/
theorem IsValue.skipValue_eq : ∀ {cs : List Char} {v : Json} {rest : List Char}, IsValue cs v rest →
    ∀ fuel, 2 * cs.length + 1 ≤ fuel → skipValue fuel cs = .ok rest
  | cs, .arr vs, _, .list h items, fuel, hfuel => by
    have := length_of_skipBlanks_cons h
    obtain ⟨fuel, rfl⟩ : ∃ n, fuel = n + 1 := ⟨fuel - 1, by omega⟩
    rw [skipValue, h]
    simp only [if_pos]
    exact items.skipItems_eq fuel (by omega)
  | cs, .obj vs, _, .object h entries, fuel, hfuel => by
    have := length_of_skipBlanks_cons h
    obtain ⟨fuel, rfl⟩ : ∃ n, fuel = n + 1 := ⟨fuel - 1, by omega⟩
    rw [skipValue, h]
    exact entries.skipEntries_eq fuel (by omega)
  | cs, v, _, .leaf h hlist hobject value, fuel, hfuel => by
    obtain ⟨fuel, rfl⟩ : ∃ n, fuel = n + 1 := ⟨fuel - 1, by omega⟩
    rw [skipValue, h]
    simp only [if_neg hlist, if_neg hobject]
    exact (readLeaf_eq_ok value).skipLeaf_eq

theorem AreItems.skipItems_eq : ∀ {first : Bool} {cs : List Char} {vs : List Json}
    {rest : List Char}, AreItems first cs vs rest → ∀ fuel, 2 * cs.length + 2 ≤ fuel →
      skipItems fuel first cs = .ok rest
  | _, cs, _, _, .close h, fuel, hfuel => by
    obtain ⟨fuel, rfl⟩ : ∃ n, fuel = n + 1 := ⟨fuel - 1, by omega⟩
    rw [skipItems, nextItem_eq_close h]
    rfl
  | _, cs, v :: vs, _, .item h value others, fuel, hfuel => by
    have hlen := length_of_nextItem h
    have := value.length_lt
    obtain ⟨fuel, rfl⟩ : ∃ n, fuel = n + 2 := ⟨fuel - 2, by omega⟩
    have hvalue := value.skipValue_eq (fuel + 1) (by omega)
    have hothers := others.skipItems_eq (fuel + 1) (by omega)
    obtain ⟨⟨c, tail, rfl, hc⟩, ⟨rfl, hcs⟩ | ⟨rfl, tail', hcs, htail⟩⟩ := nextItem_eq_item h
    · rw [skipItems, hcs]
      simp only [if_neg hc, if_pos, hvalue, hothers]
    · rw [← htail, skipValue_skipBlanks] at hvalue
      rw [skipItems, hcs]
      simp only [if_neg (by decide : ¬ ',' = ']'), Bool.false_eq_true, if_false, if_true, hvalue,
        hothers]

theorem AreEntries.skipEntries_eq : ∀ {first : Bool} {cs : List Char} {vs : List (String × Json)}
    {rest : List Char}, AreEntries first cs vs rest → ∀ fuel, 2 * cs.length + 2 ≤ fuel →
      skipEntries fuel first cs = .ok rest
  | _, cs, _, _, .close h, fuel, hfuel => by
    obtain ⟨fuel, rfl⟩ : ∃ n, fuel = n + 1 := ⟨fuel - 1, by omega⟩
    rw [skipEntries, nextKey_eq_close h]
    rfl
  | _, cs, (key, v) :: vs, _, .entry h hkey hcolon value others, fuel, hfuel => by
    have := length_of_nextKey h
    have := length_of_readString hkey
    have := length_of_skipBlanks_cons (readColon_eq_ok hcolon)
    have := value.length_lt
    obtain ⟨fuel, rfl⟩ : ∃ n, fuel = n + 1 := ⟨fuel - 1, by omega⟩
    have hvalue := value.skipValue_eq fuel (by omega)
    have hothers := others.skipEntries_eq fuel (by omega)
    rcases nextKey_eq_item h with ⟨rfl, hcs⟩ | ⟨rfl, tail, hcs, htail⟩
    · rw [skipEntries, hcs]
      simp only [if_neg (by decide : ¬ '"' = '\x7d'), Bool.true_or, if_true,
        skipKey_eq (skipBlanks_cons rfl) hkey hcolon, hvalue, hothers]
    · rw [skipEntries, hcs]
      simp only [if_neg (by decide : ¬ ',' = '\x7d'), Bool.false_or, decide_true, if_true,
        Bool.false_eq_true, if_false, skipKey_eq htail hkey hcolon, hvalue, hothers]
end

end NamedTree.Json
