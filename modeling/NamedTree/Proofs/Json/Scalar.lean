import NamedTree.Json.Printer
import NamedTree.Proofs.Json.Leaf

/-! # Words, integers and strings are read back

Reading a word, an integer or a string that was written gives it back and stops at its end
(`readLeaf_null`, `readLeaf_bool`, `readLeaf_integer`, `readLeaf_quote`). A word and a string show
where they end; an integer ends only where the text goes on with something that cannot be a part of
a number (`EndsNumber`).

A written string is read character by character: whatever `escape` makes of a character is read as
that character (`readChars_escape`). -/

namespace NamedTree

/-! ### Digits -/

namespace Decimal

theorem exists_digits_eq (n : ℕ) :
    ∃ c cs, digits n = c :: cs ∧ c.isDigit = true ∧ (c = '0' → n = 0 ∧ cs = []) := by
  have hzero : ∀ d < 10, Nat.digitChar d = '0' → d = 0 := by decide
  induction n using Nat.strongRecOn with
  | ind n ih =>
    rw [digits]
    split_ifs with hn
    · exact ⟨_, _, rfl, (digitChar_spec n hn).2, fun h => ⟨hzero n hn h, rfl⟩⟩
    · obtain ⟨c, cs, hdigits, hdigit, hlead⟩ := ih (n / 10) (by omega)
      rw [hdigits]
      refine ⟨c, cs ++ [(n % 10).digitChar], rfl, hdigit, fun h => ?_⟩
      have := (hlead h).1
      omega

end Decimal

namespace Json

/-- A text that cannot go on with a number. -/
def EndsNumber (rest : List Char) : Prop :=
  ∀ c ∈ rest.head?, c.isDigit = false ∧ c ≠ '.' ∧ c ≠ 'e' ∧ c ≠ 'E'

theorem endsNumber_nil : EndsNumber [] := by
  intro c hc
  cases hc

namespace Numeral

theorem spanDigits_append {ds rest : List Char} (hds : ∀ c ∈ ds, c.isDigit = true)
    (hrest : EndsNumber rest) : spanDigits (ds ++ rest) = (ds, rest) := by
  have hnone : rest.takeWhile Char.isDigit = [] ∧ rest.dropWhile Char.isDigit = rest := by
    cases rest with
    | nil => exact ⟨rfl, rfl⟩
    | cons c rest =>
      have hc := (hrest c rfl).1
      simp [hc]
  rw [spanDigits, List.takeWhile_append_of_pos hds, List.dropWhile_append_of_pos hds, hnone.1,
    hnone.2, List.append_nil]

theorem scanWhole_digits (n : ℕ) {rest : List Char} (hrest : EndsNumber rest) :
    scanWhole (Decimal.digits n ++ rest) = .ok (Decimal.digits n, rest) := by
  obtain ⟨c, cs, hdigits, hdigit, hlead⟩ := Decimal.exists_digits_eq n
  have hspan := spanDigits_append (fun c => Decimal.isDigit_of_mem_digits (n := n) (c := c)) hrest
  rw [hdigits] at hspan ⊢
  by_cases hzero : c = '0'
  · obtain ⟨-, rfl⟩ := hlead hzero
    have hnone : spanDigits ([] ++ rest) = ([], rest) := spanDigits_append (by simp) hrest
    rw [List.nil_append] at hnone
    subst hzero
    simp [scanWhole, hnone]
  · rw [List.cons_append] at hspan ⊢
    unfold scanWhole
    split
    · rename_i heq
      exact absurd (List.cons.inj heq).1 hzero
    · simp [scanDigits, hspan]

theorem scan_digits (negative : Bool) (n : ℕ) {rest : List Char} (hrest : EndsNumber rest) :
    scan negative (Decimal.digits n ++ rest) =
      .ok (⟨negative, Decimal.digits n, [], none⟩, rest) := by
  have hfraction : scanFraction rest = .ok ([], rest) := by
    unfold scanFraction
    split
    · exact absurd rfl (hrest '.' rfl).2.1
    · rfl
  have hexponent : scanExponent rest = .ok (none, rest) := by
    cases rest with
    | nil => rfl
    | cons c rest =>
      obtain ⟨-, -, he, hE⟩ := hrest c rfl
      simp [scanExponent, he, hE]
  simp [scan, scanWhole_digits n hrest, hfraction, hexponent, bind, Except.bind, pure, Except.pure]

theorem value_digits (negative : Bool) (n : ℕ) (i : Integer)
    (h : if negative then i.val = -n ∧ n ≠ 0 else i.val = n) :
    value ⟨negative, Decimal.digits n, [], none⟩ = .ok (.int i) := by
  have hbounds : Integer.ofInt? i.val = some i := by
    rw [Integer.ofInt?, dif_pos ⟨i.lower, i.upper⟩]
  have hinteger : integer? ⟨negative, Decimal.digits n, [], none⟩ = some i := by
    cases negative with
    | false =>
      rw [if_neg Bool.false_ne_true] at h
      simp [integer?, Decimal.value_digits, ← h, hbounds]
    | true =>
      rw [if_pos rfl] at h
      simp [integer?, Decimal.value_digits, ← h.1, h.2, hbounds]
  rw [value, hinteger]

end Numeral

theorem readNumber_digits (negative : Bool) (n : ℕ) (i : Integer)
    (h : if negative then i.val = -n ∧ n ≠ 0 else i.val = n) {rest : List Char}
    (hrest : EndsNumber rest) :
    readNumber negative (Decimal.digits n ++ rest) = .ok (.int i, rest) := by
  rw [readNumber, Numeral.scan_digits negative n hrest]
  simp only [Numeral.value_digits negative n i h]

/-- **An integer is read back.** -/
theorem readLeaf_integer (i : Integer) {rest : List Char} (hrest : EndsNumber rest) :
    readLeaf (Decimal.integer i.val ++ rest) = .ok (.int i, rest) := by
  unfold Decimal.integer
  split_ifs with hsign
  · rw [List.cons_append, readLeaf]
    exact readNumber_digits true i.val.natAbs i (by rw [if_pos rfl]; omega) hrest
  · have hnumber := readNumber_digits false i.val.natAbs i
      (by rw [if_neg Bool.false_ne_true]; omega) hrest
    obtain ⟨c, cs, hdigits, hdigit, -⟩ := Decimal.exists_digits_eq i.val.natAbs
    rw [hdigits, List.cons_append] at hnumber ⊢
    rw [readLeaf_digit hdigit, hnumber]

/-! ### Words -/

theorem readWord_append (word rest : List Char) : readWord word (word ++ rest) = .ok rest := by
  induction word with
  | nil => rw [List.nil_append, readWord]
  | cons w word ih => rw [List.cons_append, readWord, if_pos rfl, ih]

theorem readLeaf_null (rest : List Char) :
    readLeaf (scalar .null ++ rest) = .ok (.null, rest) := by
  have h := readWord_append "ull".toList rest
  rw [show scalar .null ++ rest = 'n' :: ("ull".toList ++ rest) from rfl, readLeaf, if_pos rfl, h]
  rfl

theorem readLeaf_bool (b : Bool) (rest : List Char) :
    readLeaf (scalar (.bool b) ++ rest) = .ok (.bool b, rest) := by
  cases b with
  | true =>
    have h := readWord_append "rue".toList rest
    rw [show scalar (.bool true) ++ rest = 't' :: ("rue".toList ++ rest) from rfl, readLeaf,
      if_neg (by decide), if_pos rfl, h]
    rfl
  | false =>
    have h := readWord_append "alse".toList rest
    rw [show scalar (.bool false) ++ rest = 'f' :: ("alse".toList ++ rest) from rfl, readLeaf,
      if_neg (by decide), if_neg (by decide), if_pos rfl, h]
    rfl

/-! ### Strings -/

theorem hexValue?_hexDigit (n : ℕ) : hexValue? (hexDigit n) = some (n % 16) := by
  have hdigit : ∀ d < 16, hexValue? (Nat.digitChar d) = some d := by decide
  exact hdigit (n % 16) (Nat.mod_lt n (by decide))

theorem readChars_of_readEscape {acc cs rest : List Char} {x : Char}
    (h : readEscape cs = .ok (x, rest)) :
    readChars acc ('\\' :: cs) = readChars (x :: acc) rest := by
  rw [readChars, if_neg (by decide), if_pos rfl]
  split
  · rename_i x' rest' hread
    rw [h] at hread
    cases hread
    rfl
  · rename_i fault hread
    rw [h] at hread
    cases hread

/-- A control character is read back from its code. -/
theorem readEscape_control {c : Char} (h : c.toNat < 0x20) (rest : List Char) :
    readEscape ('u' :: '0' :: '0' :: hexDigit (c.toNat / 16) :: hexDigit c.toNat :: rest) =
      .ok (c, rest) := by
  have hcode : ((0 * 16 + 0) * 16 + c.toNat / 16 % 16) * 16 + c.toNat % 16 = c.toNat := by omega
  have hhex : readHex ('0' :: '0' :: hexDigit (c.toNat / 16) :: hexDigit c.toNat :: rest) =
      .ok (c.toNat, rest) := by
    have hdigit : hexValue? '0' = some 0 := by decide
    simp only [readHex, hdigit, hexValue?_hexDigit, hcode]
  have hlow : isLowSurrogate c.toNat = false := by
    simp only [isLowSurrogate, Bool.and_eq_false_iff, decide_eq_false_iff_not]
    omega
  have hhigh : isHighSurrogate c.toNat = false := by
    simp only [isHighSurrogate, Bool.and_eq_false_iff, decide_eq_false_iff_not]
    omega
  simp [readEscape, readCodePoint, hhex, hlow, hhigh, bind, Except.bind, pure, Except.pure]

/-- **What is written for a character is read as the character.** -/
theorem readChars_escape (acc : List Char) (c : Char) (rest : List Char) :
    readChars acc (escape c ++ rest) = readChars (c :: acc) rest := by
  unfold escape
  split_ifs with hquote hsolidus hb hf hn hr ht hcontrol
  · subst hquote
    exact readChars_of_readEscape rfl
  · subst hsolidus
    exact readChars_of_readEscape rfl
  · subst hb
    exact readChars_of_readEscape rfl
  · subst hf
    exact readChars_of_readEscape rfl
  · subst hn
    exact readChars_of_readEscape rfl
  · subst hr
    exact readChars_of_readEscape rfl
  · subst ht
    exact readChars_of_readEscape rfl
  · exact readChars_of_readEscape (readEscape_control hcontrol rest)
  · rw [List.singleton_append, readChars, if_neg hquote, if_neg hsolidus, if_neg hcontrol]

theorem readChars_flatMap_escape (acc cs rest : List Char) :
    readChars acc (cs.flatMap escape ++ '"' :: rest) = .ok (acc.reverse ++ cs, rest) := by
  induction cs generalizing acc with
  | nil =>
    rw [List.flatMap_nil, List.nil_append, readChars, if_pos rfl, List.append_nil]
  | cons c cs ih =>
    rw [List.flatMap_cons, List.append_assoc, readChars_escape, ih, List.reverse_cons,
      List.append_assoc, List.singleton_append]

/-- A string is read back from after its opening quotation mark. -/
theorem readString_quote (s : String) (rest : List Char) :
    readString (s.toList.flatMap escape ++ '"' :: rest) = .ok (s, rest) := by
  rw [readString, readChars_flatMap_escape]
  simp [Except.map]

theorem quote_append (s : String) (rest : List Char) :
    quote s ++ rest = '"' :: (s.toList.flatMap escape ++ '"' :: rest) := by
  simp [quote]

/-- **A string is read back.** -/
theorem readLeaf_quote (s : String) (rest : List Char) :
    readLeaf (quote s ++ rest) = .ok (.str s, rest) := by
  rw [quote_append, readLeaf, if_neg (by decide), if_neg (by decide), if_neg (by decide),
    if_neg (by decide), if_neg (by decide), if_pos rfl, readString_quote]
  rfl

end Json

end NamedTree
