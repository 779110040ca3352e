import NamedTree.Json.Skip
import Mathlib.Data.List.Basic

/-! # Words, numbers and strings of JSON texts

What reading a value that is no container can do (`readLeaf_eq_ok`), that it moves forward
(`Leaf.length_lt`), and that passing over the value ends at the same place (`Leaf.skipLeaf_eq`).
Passing over is laxer than reading: it takes the two halves of a surrogate pair for two escapes and
does not ask what a number means. -/

namespace NamedTree

theorem bind_eq_ok_iff {x : Except ε α} {f : α → Except ε β} {b : β} :
    x >>= f = .ok b ↔ ∃ a, x = .ok a ∧ f a = .ok b := by
  cases x <;> simp [bind, Except.bind]

theorem map_eq_ok_iff {x : Except ε α} {f : α → β} {b : β} :
    x.map f = .ok b ↔ ∃ a, x = .ok a ∧ f a = b := by
  cases x <;> simp [Except.map]

namespace Json

/-! ### Words -/

theorem length_of_readWord {word cs rest : List Char} (h : readWord word cs = .ok rest) :
    rest.length ≤ cs.length := by
  fun_induction readWord word cs with
  | case1 cs => cases h; exact Nat.le_refl _
  | case2 => cases h
  | case3 word cs w ih => have := ih h; simp only [List.length_cons]; omega
  | case4 => cases h

/-! ### Numbers -/

namespace Numeral

theorem length_of_scanDigits {cs digits rest : List Char} (h : scanDigits cs = .ok (digits, rest)) :
    rest.length < cs.length := by
  unfold scanDigits spanDigits at h
  split_ifs at h with hempty
  cases h
  have hpos : 0 < (cs.takeWhile Char.isDigit).length :=
    List.length_pos_of_ne_nil (by simpa using hempty)
  have hsplit : cs.takeWhile Char.isDigit ++ cs.dropWhile Char.isDigit = cs :=
    List.takeWhile_append_dropWhile
  have hlen := congrArg List.length hsplit
  rw [List.length_append] at hlen
  omega

theorem length_of_scanWhole {cs digits rest : List Char} (h : scanWhole cs = .ok (digits, rest)) :
    rest.length < cs.length := by
  unfold scanWhole at h
  split at h
  · split_ifs at h
    cases h
    simp
  · exact length_of_scanDigits h

theorem length_of_scanFraction {cs digits rest : List Char}
    (h : scanFraction cs = .ok (digits, rest)) : rest.length ≤ cs.length := by
  unfold scanFraction at h
  split at h
  · have := length_of_scanDigits h
    simp only [List.length_cons]; omega
  · cases h
    exact Nat.le_refl _

theorem length_scanSign (cs : List Char) : (scanSign cs).2.length ≤ cs.length := by
  unfold scanSign
  split <;> simp

theorem length_of_scanExponent {cs rest : List Char} {exponent : Option Exponent}
    (h : scanExponent cs = .ok (exponent, rest)) : rest.length ≤ cs.length := by
  unfold scanExponent at h
  split at h
  · cases h
    exact Nat.le_refl _
  · rename_i c cs
    split_ifs at h
    · obtain ⟨⟨digits, rest'⟩, hdigits, hrest⟩ := bind_eq_ok_iff.mp h
      cases hrest
      have := length_of_scanDigits hdigits
      have := length_scanSign cs
      simp only [List.length_cons]; omega
    · cases h
      exact Nat.le_refl _

theorem length_of_scan {negative : Bool} {cs rest : List Char} {numeral : Numeral}
    (h : scan negative cs = .ok (numeral, rest)) : rest.length < cs.length := by
  obtain ⟨⟨whole, cs₁⟩, hwhole, h⟩ := bind_eq_ok_iff.mp h
  obtain ⟨⟨fraction, cs₂⟩, hfraction, h⟩ := bind_eq_ok_iff.mp h
  obtain ⟨⟨exponent, cs₃⟩, hexponent, h⟩ := bind_eq_ok_iff.mp h
  cases h
  have := length_of_scanWhole hwhole
  have := length_of_scanFraction hfraction
  have := length_of_scanExponent hexponent
  omega

/-- The sign does not matter for where a number ends. -/
theorem scan_false_of_scan {negative : Bool} {cs rest : List Char} {numeral : Numeral}
    (h : scan negative cs = .ok (numeral, rest)) :
    scan false cs = .ok ({ numeral with negative := false }, rest) := by
  obtain ⟨⟨whole, cs₁⟩, hwhole, h⟩ := bind_eq_ok_iff.mp h
  obtain ⟨⟨fraction, cs₂⟩, hfraction, h⟩ := bind_eq_ok_iff.mp h
  obtain ⟨⟨exponent, cs₃⟩, hexponent, h⟩ := bind_eq_ok_iff.mp h
  cases h
  simp [scan, hwhole, hfraction, hexponent, bind, Except.bind, pure, Except.pure]

/-- A number means a whole number or a double. -/
theorem value_eq_ok {numeral : Numeral} {v : Json} (h : numeral.value = .ok v) :
    (∃ n, v = .int n) ∨ ∃ x, v = .float x := by
  unfold value at h
  split at h
  · cases h
    exact Or.inl ⟨_, rfl⟩
  · obtain ⟨x, -, rfl⟩ := map_eq_ok_iff.mp h
    exact Or.inr ⟨_, rfl⟩

end Numeral

theorem readNumber_eq_ok {negative : Bool} {cs rest : List Char} {v : Json}
    (h : readNumber negative cs = .ok (v, rest)) :
    ∃ numeral, Numeral.scan negative cs = .ok (numeral, rest) ∧ numeral.value = .ok v := by
  unfold readNumber at h
  split at h
  · cases h
  · rename_i numeral rest' hscan
    split at h
    · rename_i v' hvalue
      cases h
      exact ⟨numeral, hscan, hvalue⟩
    · cases h

theorem value_of_readNumber {negative : Bool} {cs rest : List Char} {v : Json}
    (h : readNumber negative cs = .ok (v, rest)) : (∃ n, v = .int n) ∨ ∃ x, v = .float x := by
  obtain ⟨numeral, -, hvalue⟩ := readNumber_eq_ok h
  exact Numeral.value_eq_ok hvalue

theorem skipNumber_of_readNumber {negative : Bool} {cs rest : List Char} {v : Json}
    (h : readNumber negative cs = .ok (v, rest)) : skipNumber cs = .ok rest := by
  obtain ⟨numeral, hscan, -⟩ := readNumber_eq_ok h
  rw [skipNumber, Numeral.scan_false_of_scan hscan]

/-! ### Strings -/

theorem skipString_escape {cs rest : List Char} (h : skipEscape cs = .ok rest) :
    skipString ('\\' :: cs) = skipString rest := by
  rw [skipString, if_neg (by decide), if_pos rfl]
  split
  · rename_i rest' hskip
    rw [h] at hskip
    rw [Except.ok.inj hskip]
  · rename_i fault hskip
    rw [h] at hskip
    cases hskip

theorem readLowSurrogate_eq_ok {high : ℕ} {cs rest : List Char} {x : Char}
    (h : readLowSurrogate high cs = .ok (x, rest)) :
    ∃ tail low, cs = '\\' :: 'u' :: tail ∧ readHex tail = .ok (low, rest) := by
  unfold readLowSurrogate at h
  split at h
  · cases h
  · cases h
  · rename_i tail
    obtain ⟨⟨low, rest'⟩, hhex, h⟩ := bind_eq_ok_iff.mp h
    simp only at h
    split_ifs at h
    obtain ⟨-, rfl⟩ := Prod.mk.inj (Except.ok.inj h)
    exact ⟨tail, low, rfl, hhex⟩
  · cases h
  · cases h

theorem skipEscape_unicode {cs rest : List Char} {n : ℕ} (h : readHex cs = .ok (n, rest)) :
    skipEscape ('u' :: cs) = .ok rest := by
  rw [skipEscape, if_pos rfl, h]
  rfl

/-- Passing over an escape ends where reading it does. A surrogate pair is one escape to the one and
two to the other. -/
theorem skipString_of_readEscape {cs rest : List Char} {x : Char}
    (h : readEscape cs = .ok (x, rest)) : skipString ('\\' :: cs) = skipString rest := by
  unfold readEscape at h
  split at h
  · cases h
  · rename_i c cs
    split_ifs at h with hu
    · subst hu
      obtain ⟨⟨n, middle⟩, hhex, h⟩ := bind_eq_ok_iff.mp h
      rw [skipString_escape (skipEscape_unicode hhex)]
      simp only at h
      split_ifs at h with hlow hhigh
      · obtain ⟨tail, low, rfl, hhex'⟩ := readLowSurrogate_eq_ok h
        rw [skipString_escape (skipEscape_unicode hhex')]
      · cases h
        rfl
    · split at h
      · rename_i short hshort
        cases h
        refine skipString_escape ?_
        rw [skipEscape, if_neg hu, hshort]
        rfl
      · cases h

theorem readChars_eq_ok {acc cs chars rest : List Char} (h : readChars acc cs = .ok (chars, rest)) :
    rest.length < cs.length ∧ skipString cs = .ok rest := by
  fun_induction readChars acc cs with
  | case1 acc => cases h
  | case2 acc rest =>
    cases h
    rw [skipString, if_pos rfl]
    exact ⟨Nat.lt_succ_self _, rfl⟩
  | case3 acc cs x middle hescape hquote ih =>
    obtain ⟨hlen, hskip⟩ := ih h
    rw [skipString_of_readEscape hescape]
    have := length_of_readEscape hescape
    exact ⟨by simp only [List.length_cons]; omega, hskip⟩
  | case4 => cases h
  | case5 => cases h
  | case6 acc c cs hquote hsolidus hcontrol ih =>
    obtain ⟨hlen, hskip⟩ := ih h
    rw [skipString, if_neg hquote, if_neg hsolidus, if_neg hcontrol]
    exact ⟨by simp only [List.length_cons]; omega, hskip⟩

theorem length_of_readString {cs rest : List Char} {s : String}
    (h : readString cs = .ok (s, rest)) : rest.length < cs.length := by
  obtain ⟨⟨chars, rest'⟩, hchars, heq⟩ := map_eq_ok_iff.mp h
  cases heq
  exact (readChars_eq_ok hchars).1

theorem skipString_of_readString {cs rest : List Char} {s : String}
    (h : readString cs = .ok (s, rest)) : skipString cs = .ok rest := by
  obtain ⟨⟨chars, rest'⟩, hchars, heq⟩ := map_eq_ok_iff.mp h
  cases heq
  exact (readChars_eq_ok hchars).2

/-! ### Values that are no containers -/

/-- The text begins with a value that is no container and goes on with the rest. -/
inductive Leaf : List Char → Json → List Char → Prop where
  | null (h : readWord "ull".toList cs = .ok rest) : Leaf ('n' :: cs) .null rest
  | yes (h : readWord "rue".toList cs = .ok rest) : Leaf ('t' :: cs) (.bool true) rest
  | no (h : readWord "alse".toList cs = .ok rest) : Leaf ('f' :: cs) (.bool false) rest
  | negative (h : readNumber true cs = .ok (v, rest)) : Leaf ('-' :: cs) v rest
  | number (hdigit : c.isDigit = true) (h : readNumber false (c :: cs) = .ok (v, rest)) :
    Leaf (c :: cs) v rest
  | text (h : readString cs = .ok (s, rest)) : Leaf ('"' :: cs) (.str s) rest

/-- What reading a value that is no container can do. -/
theorem readLeaf_eq_ok {cs rest : List Char} {v : Json} (h : readLeaf cs = .ok (v, rest)) :
    Leaf cs v rest := by
  unfold readLeaf at h
  split at h
  · cases h
  · rename_i c cs
    split_ifs at h with hn ht hf hminus hdigit hquote
    · obtain ⟨rest', hword, heq⟩ := map_eq_ok_iff.mp h
      cases heq
      exact hn ▸ .null hword
    · obtain ⟨rest', hword, heq⟩ := map_eq_ok_iff.mp h
      cases heq
      exact ht ▸ .yes hword
    · obtain ⟨rest', hword, heq⟩ := map_eq_ok_iff.mp h
      cases heq
      exact hf ▸ .no hword
    · exact hminus ▸ .negative h
    · exact .number hdigit h
    · obtain ⟨⟨s, rest'⟩, hstring, heq⟩ := map_eq_ok_iff.mp h
      cases heq
      exact hquote ▸ .text hstring

namespace Leaf

theorem length_lt {cs rest : List Char} {v : Json} (h : Leaf cs v rest) :
    rest.length < cs.length := by
  cases h with
  | null h | yes h | no h => exact Nat.lt_succ_of_le (length_of_readWord h)
  | negative h =>
    obtain ⟨numeral, hscan, -⟩ := readNumber_eq_ok h
    exact Nat.lt_succ_of_lt (Numeral.length_of_scan hscan)
  | number hdigit h =>
    obtain ⟨numeral, hscan, -⟩ := readNumber_eq_ok h
    exact Numeral.length_of_scan hscan
  | text h => exact Nat.lt_succ_of_lt (length_of_readString h)

theorem ne_of_isDigit {c d : Char} (hc : c.isDigit = true) (hd : d.isDigit = false) : c ≠ d := by
  rintro rfl
  rw [hc] at hd
  cases hd

end Leaf

theorem readLeaf_digit {c : Char} (hdigit : c.isDigit = true) (cs : List Char) :
    readLeaf (c :: cs) = readNumber false (c :: cs) := by
  have hne (d : Char) (hd : d.isDigit = false) : c ≠ d := Leaf.ne_of_isDigit hdigit hd
  rw [readLeaf, if_neg (hne _ rfl), if_neg (hne _ rfl), if_neg (hne _ rfl), if_neg (hne _ rfl),
    if_pos hdigit]

theorem skipLeaf_digit {c : Char} (hdigit : c.isDigit = true) (cs : List Char) :
    skipLeaf (c :: cs) = skipNumber (c :: cs) := by
  have hne (d : Char) (hd : d.isDigit = false) : c ≠ d := Leaf.ne_of_isDigit hdigit hd
  rw [skipLeaf, if_neg (hne _ rfl), if_neg (hne _ rfl), if_neg (hne _ rfl), if_neg (hne _ rfl),
    if_pos hdigit]

/-- Passing over the value ends where reading it does. -/
theorem Leaf.skipLeaf_eq {cs rest : List Char} {v : Json} (h : Leaf cs v rest) :
    skipLeaf cs = .ok rest := by
  cases h with
  | null h | yes h | no h => exact h
  | negative h => exact skipNumber_of_readNumber h
  | @number c cs v rest hdigit h =>
    rw [skipLeaf_digit hdigit]
    exact skipNumber_of_readNumber h
  | text h => exact skipString_of_readString h

end Json

end NamedTree
