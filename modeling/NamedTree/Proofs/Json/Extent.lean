import NamedTree.Proofs.Json.Tokens

/-! # How far reading a value looks

Where a value ends depends on its text and on the next character at most (`IsValue.peeks`), and the
same holds for a value that is passed over (`peeks_skipValue`). A list or an object ends with its
bracket, so that not even the next character matters.

`Skips` is passing over with every number of steps beyond what the text needs. Unlike the values that
are read, the texts that are passed over have no grammar of their own: their rules are lemmas on
`Skips`, `SkipsItems` and `SkipsEntries`, one for each thing that the functions can do. -/

namespace NamedTree.Json

/-! ### Values that are read -/

mutual
/-- **A value ends where its text says**, or before the first character that cannot belong to it. -/
theorem IsValue.peeks : ∀ {cs : List Char} {v : Json} {rest : List Char}, IsValue cs v rest →
    Peeks (fun cs rest => IsValue cs v rest) cs rest
  | _, .arr _, _, .list h items =>
    ((closes_skipBlanks h).peeks.then items.closes.peeks).imp
      fun _ _ ⟨_, h, items⟩ => .list h items
  | _, .obj _, _, .object h entries =>
    ((closes_skipBlanks h).peeks.then entries.closes.peeks).imp
      fun _ _ ⟨_, h, entries⟩ => .object h entries
  | cs, v, rest, .leaf h hlist hobject value => by
    have hleaf := (peeks_readLeaf value).first (readLeaf_eq_ok value).length_lt
    refine ((h ▸ peeks_skipBlanks cs).then hleaf).imp ?_
    rintro cs rest ⟨text, h, value, hfirst⟩
    obtain ⟨text, rfl⟩ := List.head?_eq_some_iff.mp hfirst
    exact .leaf h hlist hobject value

theorem AreItems.closes : ∀ {first : Bool} {cs : List Char} {vs : List Json} {rest : List Char},
    AreItems first cs vs rest → Closes (fun cs rest => AreItems first cs vs rest) cs rest
  | _, _, _, _, .close h => (closes_nextItem h).imp fun _ _ h => .close h
  | _, _, _, _, .item h value others =>
    ((peeks_nextItem h).closes (value.peeks.closes others.closes)).imp
      fun _ _ ⟨_, h, _, value, others⟩ => .item h value others

theorem AreEntries.closes : ∀ {first : Bool} {cs : List Char} {vs : List (String × Json)}
    {rest : List Char}, AreEntries first cs vs rest →
      Closes (fun cs rest => AreEntries first cs vs rest) cs rest
  | _, _, _, _, .close h => (closes_nextKey h).imp fun _ _ h => .close h
  | _, _, _, _, .entry h hkey hcolon value others =>
    ((peeks_nextKey h).closes ((peeks_readString hkey).closes ((peeks_readColon hcolon).closes
      (value.peeks.closes others.closes)))).imp
      fun _ _ ⟨_, h, _, hkey, _, hcolon, _, value, others⟩ => .entry h hkey hcolon value others
end

/-! ### Values that are passed over -/

/-- Passing over a value at the beginning of the text leaves the rest. -/
structure Skips (cs rest : List Char) : Prop where
  shorter : rest.length < cs.length
  eq_ok : ∀ fuel, 2 * cs.length + 1 ≤ fuel → skipValue fuel cs = .ok rest

/-- Passing over the items of a list leaves the rest. -/
structure SkipsItems (first : Bool) (cs rest : List Char) : Prop where
  shorter : rest.length < cs.length
  eq_ok : ∀ fuel, 2 * cs.length + 2 ≤ fuel → skipItems fuel first cs = .ok rest

/-- Passing over the entries of an object leaves the rest. -/
structure SkipsEntries (first : Bool) (cs rest : List Char) : Prop where
  shorter : rest.length < cs.length
  eq_ok : ∀ fuel, 2 * cs.length + 2 ≤ fuel → skipEntries fuel first cs = .ok rest

/-! Each rule takes one step and a character of the text, so that the bounds on the steps go down with
the text. Items and entries need one step more than a value of the same length, because the value of
an item may begin where they begin. -/

section Rules
variable {cs text text' middle rest : List Char} {c : Char} {isFirst : Bool}

theorem Skips.list (h : skipBlanks cs = '[' :: text) (items : SkipsItems true text rest) :
    Skips cs rest := by
  have := length_of_skipBlanks_cons h
  have := items.shorter
  refine ⟨by omega, fun fuel hfuel => ?_⟩
  obtain ⟨fuel, rfl⟩ : ∃ n, fuel = n + 1 := ⟨fuel - 1, by omega⟩
  rw [skipValue, h]
  exact items.eq_ok fuel (by omega)

theorem Skips.object (h : skipBlanks cs = '\x7b' :: text) (entries : SkipsEntries true text rest) :
    Skips cs rest := by
  have := length_of_skipBlanks_cons h
  have := entries.shorter
  refine ⟨by omega, fun fuel hfuel => ?_⟩
  obtain ⟨fuel, rfl⟩ : ∃ n, fuel = n + 1 := ⟨fuel - 1, by omega⟩
  rw [skipValue, h]
  exact entries.eq_ok fuel (by omega)

theorem Skips.leaf (h : skipBlanks cs = c :: text) (hlist : c ≠ '[') (hobject : c ≠ '\x7b')
    (value : skipLeaf (c :: text) = .ok rest) : Skips cs rest := by
  have := length_of_skipBlanks_cons h
  have hvalue := length_of_skipLeaf value
  rw [List.length_cons] at hvalue
  refine ⟨by omega, fun fuel hfuel => ?_⟩
  obtain ⟨fuel, rfl⟩ : ∃ n, fuel = n + 1 := ⟨fuel - 1, by omega⟩
  rw [skipValue, h]
  simp only [if_neg hlist, if_neg hobject]
  exact value

theorem SkipsItems.close (h : skipBlanks cs = ']' :: rest) : SkipsItems isFirst cs rest := by
  refine ⟨length_of_skipBlanks_cons h, fun fuel hfuel => ?_⟩
  obtain ⟨fuel, rfl⟩ : ∃ n, fuel = n + 1 := ⟨fuel - 1, by omega⟩
  rw [skipItems, h]
  rfl

theorem SkipsItems.first (h : skipBlanks cs = c :: text) (hc : c ≠ ']')
    (value : Skips (c :: text) middle) (others : SkipsItems false middle rest) :
    SkipsItems true cs rest := by
  have := length_of_skipBlanks_cons h
  have hvalue := value.shorter
  have := others.shorter
  rw [List.length_cons] at hvalue
  refine ⟨by omega, fun fuel hfuel => ?_⟩
  obtain ⟨fuel, rfl⟩ : ∃ n, fuel = n + 1 := ⟨fuel - 1, by omega⟩
  rw [skipItems, h]
  simp only [if_neg hc, if_true, value.eq_ok fuel (by rw [List.length_cons]; omega),
    others.eq_ok fuel (by omega)]

theorem SkipsItems.comma (h : skipBlanks cs = ',' :: text) (value : Skips text middle)
    (others : SkipsItems false middle rest) : SkipsItems false cs rest := by
  have := length_of_skipBlanks_cons h
  have := value.shorter
  have := others.shorter
  refine ⟨by omega, fun fuel hfuel => ?_⟩
  obtain ⟨fuel, rfl⟩ : ∃ n, fuel = n + 1 := ⟨fuel - 1, by omega⟩
  rw [skipItems, h]
  simp only [value.eq_ok fuel (by omega), others.eq_ok fuel (by omega)]
  rfl

theorem SkipsEntries.close (h : skipBlanks cs = '\x7d' :: rest) :
    SkipsEntries isFirst cs rest := by
  refine ⟨length_of_skipBlanks_cons h, fun fuel hfuel => ?_⟩
  obtain ⟨fuel, rfl⟩ : ∃ n, fuel = n + 1 := ⟨fuel - 1, by omega⟩
  rw [skipEntries, h]
  rfl

theorem SkipsEntries.first (h : skipBlanks cs = c :: text) (hc : c ≠ '\x7d')
    (key : skipKey (c :: text) = .ok text') (value : Skips text' middle)
    (others : SkipsEntries false middle rest) : SkipsEntries true cs rest := by
  have := length_of_skipBlanks_cons h
  have hkey := length_of_skipKey key
  have := value.shorter
  have := others.shorter
  rw [List.length_cons] at hkey
  refine ⟨by omega, fun fuel hfuel => ?_⟩
  obtain ⟨fuel, rfl⟩ : ∃ n, fuel = n + 1 := ⟨fuel - 1, by omega⟩
  rw [skipEntries, h]
  simp only [if_neg hc, Bool.true_or, if_true, key, value.eq_ok fuel (by omega),
    others.eq_ok fuel (by omega)]

theorem SkipsEntries.comma (h : skipBlanks cs = ',' :: text) (key : skipKey text = .ok text')
    (value : Skips text' middle) (others : SkipsEntries false middle rest) :
    SkipsEntries false cs rest := by
  have := length_of_skipBlanks_cons h
  have := length_of_skipKey key
  have := value.shorter
  have := others.shorter
  refine ⟨by omega, fun fuel hfuel => ?_⟩
  obtain ⟨fuel, rfl⟩ : ∃ n, fuel = n + 1 := ⟨fuel - 1, by omega⟩
  rw [skipEntries, h]
  simp only [if_neg (by decide : ¬ ',' = '\x7d'), Bool.false_or, decide_true, if_true,
    Bool.false_eq_true, if_false, key, value.eq_ok fuel (by omega), others.eq_ok fuel (by omega)]

end Rules

/-! One more step for each of the three functions, from what `fuel` steps do; then one induction. -/

section Step
variable {fuel : ℕ} {first : Bool} {cs rest : List Char}

theorem peeks_skipValue_succ
    (ihItems : ∀ first cs rest, skipItems fuel first cs = .ok rest →
      Closes (SkipsItems first) cs rest)
    (ihEntries : ∀ first cs rest, skipEntries fuel first cs = .ok rest →
      Closes (SkipsEntries first) cs rest)
    (h : skipValue (fuel + 1) cs = .ok rest) : Peeks Skips cs rest := by
  rw [skipValue] at h
  split at h
  · cases h
  · rename_i c text hcs
    split_ifs at h with hlist hobject
    · refine ((closes_skipBlanks (hlist ▸ hcs)).peeks.then (ihItems _ _ _ h).peeks).imp ?_
      rintro cs rest ⟨text, hcs, items⟩
      exact .list hcs items
    · refine ((closes_skipBlanks (hobject ▸ hcs)).peeks.then (ihEntries _ _ _ h).peeks).imp ?_
      rintro cs rest ⟨text, hcs, entries⟩
      exact .object hcs entries
    · have hleaf := (peeks_skipLeaf h).first (length_of_skipLeaf h)
      refine ((hcs ▸ peeks_skipBlanks cs).then hleaf).imp ?_
      rintro cs rest ⟨text, hcs, h, hfirst⟩
      obtain ⟨text, rfl⟩ := List.head?_eq_some_iff.mp hfirst
      exact .leaf hcs hlist hobject h

theorem closes_skipItems_succ
    (ihValue : ∀ cs rest, skipValue fuel cs = .ok rest → Peeks Skips cs rest)
    (ihItems : ∀ first cs rest, skipItems fuel first cs = .ok rest →
      Closes (SkipsItems first) cs rest)
    (h : skipItems (fuel + 1) first cs = .ok rest) : Closes (SkipsItems first) cs rest := by
  rw [skipItems] at h
  split at h
  · cases h
  · rename_i c text hcs
    split_ifs at h with hclose hfirst hcomma
    · cases h
      exact (closes_skipBlanks (hclose ▸ hcs)).imp fun _ _ h => .close h
    · subst hfirst
      split at h
      · cases h
      · rename_i middle hvalue
        have hvalue := ihValue _ _ hvalue
        refine ((hcs ▸ peeks_skipBlanks cs).closes
          ((hvalue.first hvalue.self.shorter).closes (ihItems _ _ _ h))).imp ?_
        rintro cs rest ⟨text, hcs, middle, ⟨value, hfirst⟩, others⟩
        obtain ⟨text, rfl⟩ := List.head?_eq_some_iff.mp hfirst
        exact .first hcs hclose value others
    · split at h
      · cases h
      · rename_i middle hvalue
        rw [Bool.not_eq_true] at hfirst
        subst hfirst
        refine ((closes_skipBlanks (hcomma ▸ hcs)).peeks.closes
          ((ihValue _ _ hvalue).closes (ihItems _ _ _ h))).imp ?_
        rintro cs rest ⟨text, hcs, middle, value, others⟩
        exact .comma hcs value others

theorem closes_skipEntries_succ
    (ihValue : ∀ cs rest, skipValue fuel cs = .ok rest → Peeks Skips cs rest)
    (ihEntries : ∀ first cs rest, skipEntries fuel first cs = .ok rest →
      Closes (SkipsEntries first) cs rest)
    (h : skipEntries (fuel + 1) first cs = .ok rest) : Closes (SkipsEntries first) cs rest := by
  rw [skipEntries] at h
  split at h
  · cases h
  · rename_i c text hcs
    by_cases hclose : c = '\x7d'
    · rw [if_pos hclose] at h
      cases h
      exact (closes_skipBlanks (hclose ▸ hcs)).imp fun _ _ h => .close h
    · rw [if_neg hclose] at h
      split at h
      · rename_i hnext
        split at h
        · cases h
        · rename_i text' hkey
          split at h
          · cases h
          · rename_i middle hvalue
            have hvalue := (ihValue _ _ hvalue).closes (ihEntries _ _ _ h)
            cases first with
            | true =>
              have hkey := (peeks_skipKey hkey).first (length_of_skipKey hkey)
              refine ((hcs ▸ peeks_skipBlanks cs).closes (hkey.closes hvalue)).imp ?_
              rintro cs rest ⟨text, hcs, text', ⟨key, hfirst⟩, middle, value, others⟩
              obtain ⟨text, rfl⟩ := List.head?_eq_some_iff.mp hfirst
              exact .first hcs hclose key value others
            | false =>
              have hcomma : c = ',' := by simpa using hnext
              refine ((closes_skipBlanks (hcomma ▸ hcs)).peeks.closes
                ((peeks_skipKey hkey).closes hvalue)).imp ?_
              rintro cs rest ⟨text, hcs, text', key, middle, value, others⟩
              exact .comma hcs key value others
      · cases h

end Step

theorem peeks_of_skips (fuel : ℕ) :
    (∀ cs rest, skipValue fuel cs = .ok rest → Peeks Skips cs rest) ∧
    (∀ first cs rest, skipItems fuel first cs = .ok rest → Closes (SkipsItems first) cs rest) ∧
    (∀ first cs rest, skipEntries fuel first cs = .ok rest →
      Closes (SkipsEntries first) cs rest) := by
  induction fuel with
  | zero =>
    refine ⟨fun cs rest h => ?_, fun first cs rest h => ?_, fun first cs rest h => ?_⟩
    · rw [skipValue] at h; cases h
    · rw [skipItems] at h; cases h
    · rw [skipEntries] at h; cases h
  | succ fuel ih =>
    obtain ⟨ihValue, ihItems, ihEntries⟩ := ih
    exact ⟨fun _ _ => peeks_skipValue_succ ihItems ihEntries,
      fun _ _ _ => closes_skipItems_succ ihValue ihItems,
      fun _ _ _ => closes_skipEntries_succ ihValue ihEntries⟩

/-- **What is passed over ends where its text says**, or before the first character that cannot
belong to it. -/
theorem peeks_skipValue {cs rest : List Char} (h : skipValue (steps cs) cs = .ok rest) :
    Peeks (fun cs rest => skipValue (steps cs) cs = .ok rest) cs rest :=
  ((peeks_of_skips _).1 cs rest h).imp fun cs _ h => h.eq_ok _ (by rw [steps]; omega)

end NamedTree.Json
