import NamedTree.Proofs.Json.Spacing
import Mathlib.Logic.Relation

/-! # How far reading looks

Reading takes a part of the text and leaves the rest. What it takes and what it makes of it does not
depend on the rest, but for the next character: a number goes on as long as there are digits. So the
part may stand before any other text that starts alike (`Peeks`). What ends in a bracket does not even
look at the next character (`Closes`).

Steps that are made one after the other put their parts together (`Peeks.then`, `Peeks.closes`), so
that the statement on a reader follows its own steps. Here are the words, numbers and strings, read or
passed over, and what stands between the parts of a list or an object. -/

namespace NamedTree.Json

/-- The text and the rest are related by what stands between them, whatever follows, if only it
starts like the rest. -/
def Peeks (R : List Char → List Char → Prop) (cs rest : List Char) : Prop :=
  ∃ part, cs = part ++ rest ∧ ∀ tail, tail.head? = rest.head? → R (part ++ tail) tail

/-- The text and the rest are related by what stands between them, whatever follows. The last
character between them is no blank. -/
def Closes (R : List Char → List Char → Prop) (cs rest : List Char) : Prop :=
  ∃ part c, isBlank c = false ∧ cs = part ++ c :: rest ∧ ∀ tail, R (part ++ c :: tail) tail

/-! ### Steps one after the other -/

section Steps
variable {R S : List Char → List Char → Prop} {cs mid rest : List Char}

theorem Peeks.length_le (h : Peeks R cs rest) : rest.length ≤ cs.length := by
  obtain ⟨part, rfl, -⟩ := h
  simp

theorem Peeks.self (h : Peeks R cs rest) : R cs rest := by
  obtain ⟨part, rfl, hpart⟩ := h
  exact hpart rest rfl

theorem Peeks.imp (h : Peeks R cs rest) (himp : ∀ cs rest, R cs rest → S cs rest) :
    Peeks S cs rest := by
  obtain ⟨part, hcs, hpart⟩ := h
  exact ⟨part, hcs, fun tail htail => himp _ _ (hpart tail htail)⟩

theorem Closes.imp (h : Closes R cs rest) (himp : ∀ cs rest, R cs rest → S cs rest) :
    Closes S cs rest := by
  obtain ⟨part, c, hc, hcs, hpart⟩ := h
  exact ⟨part, c, hc, hcs, fun tail => himp _ _ (hpart tail)⟩

theorem Closes.peeks (h : Closes R cs rest) : Peeks R cs rest := by
  obtain ⟨part, c, -, rfl, hpart⟩ := h
  exact ⟨part ++ [c], by simp, fun tail _ => by simpa using hpart tail⟩

/-- What follows starts with the same character. -/
theorem Peeks.head (h : Peeks R cs rest) :
    Peeks (fun cs' rest' => R cs' rest' ∧ rest'.head? = rest.head?) cs rest := by
  obtain ⟨part, hcs, hpart⟩ := h
  exact ⟨part, hcs, fun tail htail => ⟨hpart tail htail, htail⟩⟩

/-- What takes something has the same first character before any rest. -/
theorem Peeks.first (h : Peeks R cs rest) (hlt : rest.length < cs.length) :
    Peeks (fun cs' rest' => R cs' rest' ∧ cs'.head? = cs.head?) cs rest := by
  obtain ⟨part, rfl, hpart⟩ := h
  cases part with
  | nil => exact absurd hlt (Nat.lt_irrefl _)
  | cons c part => exact ⟨c :: part, rfl, fun tail htail => ⟨hpart tail htail, rfl⟩⟩

theorem Peeks.then (h : Peeks R cs mid) (h' : Peeks S mid rest) :
    Peeks (Relation.Comp R S) cs rest := by
  obtain ⟨part, rfl, hpart⟩ := h
  obtain ⟨part', rfl, hpart'⟩ := h'
  refine ⟨part ++ part', by simp, fun tail htail => ⟨part' ++ tail, ?_, hpart' tail htail⟩⟩
  rw [List.append_assoc]
  exact hpart _ (by rw [List.head?_append, List.head?_append, htail])

theorem Peeks.closes (h : Peeks R cs mid) (h' : Closes S mid rest) :
    Closes (Relation.Comp R S) cs rest := by
  obtain ⟨part, rfl, hpart⟩ := h
  obtain ⟨part', c, hc, rfl, hpart'⟩ := h'
  refine ⟨part ++ part', c, hc, by simp, fun tail => ⟨part' ++ c :: tail, ?_, hpart' tail⟩⟩
  rw [List.append_assoc]
  exact hpart _ (by rw [List.head?_append, List.head?_append, List.head?_cons, List.head?_cons])

theorem Peeks.cons (c : Char) (h : Peeks (fun cs rest => R (c :: cs) rest) cs rest) :
    Peeks R (c :: cs) rest := by
  obtain ⟨part, rfl, hpart⟩ := h
  exact ⟨c :: part, rfl, hpart⟩

/-- Nothing is taken. -/
theorem Peeks.nothing (h : ∀ tail, tail.head? = rest.head? → R tail tail) : Peeks R rest rest :=
  ⟨[], rfl, h⟩

end Steps

/-! ### Blanks and digits -/

/-- A run of characters ends before the first character that is different. -/
theorem peeks_span (p : Char → Bool) (cs : List Char) :
    Peeks (fun cs' rest => cs'.takeWhile p = cs.takeWhile p ∧ cs'.dropWhile p = rest) cs
      (cs.dropWhile p) := by
  refine ⟨cs.takeWhile p, List.takeWhile_append_dropWhile.symm, fun tail htail => ?_⟩
  have hrun : ∀ c ∈ cs.takeWhile p, p c = true := fun c hc => List.mem_takeWhile_imp hc
  have hnone : tail.takeWhile p = [] ∧ tail.dropWhile p = tail := by
    cases tail with
    | nil => exact ⟨rfl, rfl⟩
    | cons c tail =>
      have hnot := List.head?_dropWhile_not p cs
      rw [← htail] at hnot
      simp only [List.head?_cons] at hnot
      simp [hnot]
  constructor
  · rw [List.takeWhile_append_of_pos hrun, hnone.1, List.append_nil]
  · rw [List.dropWhile_append_of_pos hrun, hnone.2]

theorem peeks_skipBlanks (cs : List Char) :
    Peeks (fun cs rest => skipBlanks cs = rest) cs (skipBlanks cs) :=
  (peeks_span isBlank cs).imp fun _ _ h => h.2

theorem closes_skipBlanks {c : Char} {cs rest : List Char} (h : skipBlanks cs = c :: rest) :
    Closes (fun cs rest => skipBlanks cs = c :: rest) cs rest := by
  have hc : isBlank c = false := by
    have hnot := List.head?_dropWhile_not isBlank cs
    rw [← skipBlanks, h] at hnot
    exact hnot
  refine ⟨cs.takeWhile isBlank, c, hc, ?_, fun tail => ?_⟩
  · rw [← h, skipBlanks, List.takeWhile_append_dropWhile]
  · have hblanks : ∀ d ∈ cs.takeWhile isBlank, isBlank d = true :=
      fun d hd => List.mem_takeWhile_imp hd
    show skipBlanks (cs.takeWhile isBlank ++ c :: tail) = c :: tail
    rw [skipBlanks_append hblanks, skipBlanks_cons hc]

theorem peeks_readWord {word cs rest : List Char} (h : readWord word cs = .ok rest) :
    Peeks (fun cs rest => readWord word cs = .ok rest) cs rest := by
  fun_induction readWord word cs with
  | case1 cs =>
    cases h
    exact .nothing fun tail _ => by rw [readWord]
  | case2 => cases h
  | case3 word c cs ih => exact .cons c ((ih h).imp fun cs rest h => by rw [readWord, if_pos rfl, h])
  | case4 => cases h

/-! ### Numbers -/

namespace Numeral

theorem peeks_scanDigits {cs digits rest : List Char} (h : scanDigits cs = .ok (digits, rest)) :
    Peeks (fun cs rest => scanDigits cs = .ok (digits, rest)) cs rest := by
  unfold scanDigits spanDigits at h
  split_ifs at h with hempty
  cases h
  refine (peeks_span Char.isDigit cs).imp fun cs' rest h => ?_
  simp only [scanDigits, spanDigits, h.1, h.2, if_neg hempty]

theorem scanWhole_of_head {cs : List Char} (h : cs.head? ≠ some '0') :
    scanWhole cs = scanDigits cs := by
  unfold scanWhole
  split
  · exact absurd rfl h
  · rfl

/-- A zero is read alone if no digit follows. -/
theorem scanWhole_zero (cs : List Char) :
    scanWhole ('0' :: cs) = if cs.head?.any Char.isDigit then .error cs else .ok (['0'], cs) := by
  cases cs with
  | nil => rfl
  | cons c cs => cases hc : c.isDigit <;> simp [scanWhole, spanDigits, hc]

theorem peeks_scanWhole {cs digits rest : List Char} (h : scanWhole cs = .ok (digits, rest)) :
    Peeks (fun cs rest => scanWhole cs = .ok (digits, rest)) cs rest := by
  by_cases hzero : cs.head? = some '0'
  · obtain ⟨cs, rfl⟩ := List.head?_eq_some_iff.mp hzero
    rw [scanWhole_zero] at h
    split_ifs at h with hdigit
    cases h
    refine ⟨['0'], rfl, fun tail htail => ?_⟩
    show scanWhole ('0' :: tail) = .ok (['0'], tail)
    rw [scanWhole_zero, htail, if_neg hdigit]
  · rw [scanWhole_of_head hzero] at h
    refine ((peeks_scanDigits h).first (length_of_scanDigits h)).imp fun cs' rest' ⟨h', hfirst⟩ => ?_
    rw [scanWhole_of_head (hfirst ▸ hzero), h']

/-- Without a point there is no fraction. -/
theorem scanFraction_of_head {cs : List Char} (h : cs.head? ≠ some '.') :
    scanFraction cs = .ok ([], cs) := by
  unfold scanFraction
  split
  · exact absurd rfl h
  · rfl

theorem peeks_scanFraction {cs digits rest : List Char} (h : scanFraction cs = .ok (digits, rest)) :
    Peeks (fun cs rest => scanFraction cs = .ok (digits, rest)) cs rest := by
  by_cases hpoint : cs.head? = some '.'
  · obtain ⟨cs, rfl⟩ := List.head?_eq_some_iff.mp hpoint
    exact .cons '.' (peeks_scanDigits h)
  · rw [scanFraction_of_head hpoint] at h
    cases h
    exact .nothing fun tail htail => scanFraction_of_head (htail ▸ hpoint)

theorem peeks_scanSign (cs : List Char) :
    Peeks (fun cs' rest => scanSign cs' = ((scanSign cs).1, rest)) cs (scanSign cs).2 := by
  fun_cases scanSign cs with
  | case1 cs => exact ⟨['+'], rfl, fun _ _ => rfl⟩
  | case2 cs => exact ⟨['-'], rfl, fun _ _ => rfl⟩
  | case3 cs hplus hminus =>
    refine .nothing fun tail htail => ?_
    unfold scanSign
    split
    · exact absurd htail.symm fun h => hplus _ (List.head?_eq_some_iff.mp h).choose_spec
    · exact absurd htail.symm fun h => hminus _ (List.head?_eq_some_iff.mp h).choose_spec
    · rfl

theorem peeks_scanExponent {cs rest : List Char} {exponent : Option Exponent}
    (h : scanExponent cs = .ok (exponent, rest)) :
    Peeks (fun cs rest => scanExponent cs = .ok (exponent, rest)) cs rest := by
  unfold scanExponent at h
  split at h
  · cases h
    refine .nothing fun tail htail => ?_
    rw [List.head?_eq_none_iff.mp htail]
    rfl
  · rename_i c cs
    split_ifs at h with hletter
    · obtain ⟨⟨digits, rest'⟩, hdigits, hrest⟩ := bind_eq_ok_iff.mp h
      cases hrest
      refine .cons c (((peeks_scanSign cs).then (peeks_scanDigits hdigits)).imp ?_)
      rintro cs' rest ⟨mid, hsign, hdigits⟩
      simp [scanExponent, hletter, hsign, hdigits, bind, Except.bind, pure, Except.pure]
    · cases h
      refine .nothing fun tail htail => ?_
      obtain ⟨tail, rfl⟩ := List.head?_eq_some_iff.mp htail
      rw [scanExponent, if_neg hletter]

theorem peeks_scan {negative : Bool} {cs rest : List Char} {numeral : Numeral}
    (h : scan negative cs = .ok (numeral, rest)) :
    Peeks (fun cs rest => scan negative cs = .ok (numeral, rest)) cs rest := by
  obtain ⟨⟨whole, cs₁⟩, hwhole, h⟩ := bind_eq_ok_iff.mp h
  obtain ⟨⟨fraction, cs₂⟩, hfraction, h⟩ := bind_eq_ok_iff.mp h
  obtain ⟨⟨exponent, cs₃⟩, hexponent, h⟩ := bind_eq_ok_iff.mp h
  cases h
  refine ((peeks_scanWhole hwhole).then
    ((peeks_scanFraction hfraction).then (peeks_scanExponent hexponent))).imp ?_
  rintro cs rest ⟨mid, hwhole, mid', hfraction, hexponent⟩
  simp [scan, hwhole, hfraction, hexponent, bind, Except.bind, pure, Except.pure]

end Numeral

theorem peeks_readNumber {negative : Bool} {cs rest : List Char} {v : Json}
    (h : readNumber negative cs = .ok (v, rest)) :
    Peeks (fun cs rest => readNumber negative cs = .ok (v, rest)) cs rest := by
  obtain ⟨numeral, hscan, hvalue⟩ := readNumber_eq_ok h
  exact (Numeral.peeks_scan hscan).imp fun cs rest h => by simp only [readNumber, h, hvalue]

theorem exists_scan_of_skipNumber {cs rest : List Char} (h : skipNumber cs = .ok rest) :
    ∃ numeral, Numeral.scan false cs = .ok (numeral, rest) := by
  unfold skipNumber at h
  split at h
  · cases h
  · rename_i numeral rest' hscan
    cases h
    exact ⟨numeral, hscan⟩

theorem peeks_skipNumber {cs rest : List Char} (h : skipNumber cs = .ok rest) :
    Peeks (fun cs rest => skipNumber cs = .ok rest) cs rest := by
  obtain ⟨numeral, hscan⟩ := exists_scan_of_skipNumber h
  exact (Numeral.peeks_scan hscan).imp fun cs rest h => by rw [skipNumber, h]

/-! ### Strings -/

theorem peeks_readHex {cs rest : List Char} {n : ℕ} (h : readHex cs = .ok (n, rest)) :
    Peeks (fun cs rest => readHex cs = .ok (n, rest)) cs rest := by
  unfold readHex at h
  split at h
  · rename_i a b c d rest'
    split at h
    · rename_i ha hb hc hd
      cases h
      refine ⟨[a, b, c, d], rfl, fun tail _ => ?_⟩
      simp only [List.cons_append, List.nil_append, readHex, ha, hb, hc, hd]
    · cases h
  · split at h <;> cases h

theorem peeks_readLowSurrogate {high : ℕ} {cs rest : List Char} {x : Char}
    (h : readLowSurrogate high cs = .ok (x, rest)) :
    Peeks (fun cs rest => readLowSurrogate high cs = .ok (x, rest)) cs rest := by
  obtain ⟨cs, low, rfl, hhex⟩ := readLowSurrogate_eq_ok h
  simp only [readLowSurrogate, hhex, bind, Except.bind] at h
  split_ifs at h with hlow
  have hx := (Prod.mk.inj (Except.ok.inj h)).1
  refine .cons '\\' (.cons 'u' ((peeks_readHex hhex).imp fun cs rest h => ?_))
  simp only [readLowSurrogate, h, bind, Except.bind, if_pos hlow, hx]
  rfl

theorem peeks_readCodePoint {cs rest : List Char} {x : Char}
    (h : readCodePoint cs = .ok (x, rest)) :
    Peeks (fun cs rest => readCodePoint cs = .ok (x, rest)) cs rest := by
  obtain ⟨⟨n, middle⟩, hhex, h⟩ := bind_eq_ok_iff.mp h
  simp only at h
  split_ifs at h with hlow hhigh
  · refine ((peeks_readHex hhex).then (peeks_readLowSurrogate h)).imp ?_
    rintro cs rest ⟨middle, hhex, h⟩
    simp only [readCodePoint, hhex, bind, Except.bind, if_neg hlow, if_pos hhigh, h]
  · cases h
    refine (peeks_readHex hhex).imp fun cs rest h => ?_
    simp only [readCodePoint, h, bind, Except.bind, if_neg hlow, if_neg hhigh]
    rfl

theorem peeks_readEscape {cs rest : List Char} {x : Char} (h : readEscape cs = .ok (x, rest)) :
    Peeks (fun cs rest => readEscape cs = .ok (x, rest)) cs rest := by
  unfold readEscape at h
  split at h
  · cases h
  · rename_i c cs
    split_ifs at h with hu
    · exact .cons c ((peeks_readCodePoint h).imp fun cs rest h => by rw [readEscape, if_pos hu, h])
    · split at h
      · rename_i short hshort
        cases h
        refine .cons c (.nothing fun tail _ => ?_)
        simp only [readEscape, if_neg hu, hshort]
      · cases h

theorem peeks_skipEscape {cs rest : List Char} (h : skipEscape cs = .ok rest) :
    Peeks (fun cs rest => skipEscape cs = .ok rest) cs rest := by
  unfold skipEscape at h
  split at h
  · cases h
  · rename_i c cs
    split_ifs at h with hu hshort
    · obtain ⟨⟨n, rest'⟩, hhex, rfl⟩ := map_eq_ok_iff.mp h
      refine .cons c ((peeks_readHex hhex).imp fun cs rest h => ?_)
      rw [hu, skipEscape_unicode h]
    · cases h
      exact .cons c (.nothing fun tail _ => by rw [skipEscape, if_neg hu, if_pos hshort])

theorem peeks_readChars {acc cs chars rest : List Char} (h : readChars acc cs = .ok (chars, rest)) :
    Peeks (fun cs rest => readChars acc cs = .ok (chars, rest)) cs rest := by
  fun_induction readChars acc cs with
  | case1 acc => cases h
  | case2 acc cs =>
    cases h
    exact .cons '"' (.nothing fun tail _ => by rw [readChars, if_pos rfl])
  | case3 acc cs x middle hescape hquote ih =>
    refine .cons '\\' (((peeks_readEscape hescape).then (ih h)).imp ?_)
    rintro cs rest ⟨middle, hescape, h⟩
    rw [readChars_of_readEscape hescape, h]
  | case4 => cases h
  | case5 => cases h
  | case6 acc c cs hquote hsolidus hcontrol ih =>
    refine .cons c ((ih h).imp fun cs rest h => ?_)
    rw [readChars, if_neg hquote, if_neg hsolidus, if_neg hcontrol, h]

theorem peeks_readString {cs rest : List Char} {s : String} (h : readString cs = .ok (s, rest)) :
    Peeks (fun cs rest => readString cs = .ok (s, rest)) cs rest := by
  obtain ⟨⟨chars, rest'⟩, hchars, heq⟩ := map_eq_ok_iff.mp h
  cases heq
  refine (peeks_readChars hchars).imp fun cs rest h => ?_
  rw [readString, h]
  rfl

theorem peeks_skipString {cs rest : List Char} (h : skipString cs = .ok rest) :
    Peeks (fun cs rest => skipString cs = .ok rest) cs rest := by
  fun_induction skipString cs with
  | case1 => cases h
  | case2 cs =>
    cases h
    exact .cons '"' (.nothing fun tail _ => by rw [skipString, if_pos rfl])
  | case3 cs middle hescape hquote ih =>
    refine .cons '\\' (((peeks_skipEscape hescape).then (ih h)).imp ?_)
    rintro cs rest ⟨middle, hescape, h⟩
    rw [skipString_escape hescape, h]
  | case4 => cases h
  | case5 => cases h
  | case6 c cs hquote hsolidus hcontrol ih =>
    refine .cons c ((ih h).imp fun cs rest h => ?_)
    rw [skipString, if_neg hquote, if_neg hsolidus, if_neg hcontrol, h]

/-! ### Values that are no containers -/

theorem peeks_readLeaf {cs rest : List Char} {v : Json} (h : readLeaf cs = .ok (v, rest)) :
    Peeks (fun cs rest => readLeaf cs = .ok (v, rest)) cs rest := by
  cases readLeaf_eq_ok h with
  | null h | yes h | no h =>
    refine .cons _ ((peeks_readWord h).imp fun cs rest h => ?_)
    simp only [readLeaf, h]
    rfl
  | negative h => exact .cons '-' (peeks_readNumber h)
  | @number c cs v rest hdigit h' =>
    obtain ⟨numeral, hscan, -⟩ := readNumber_eq_ok h'
    refine ((peeks_readNumber h').first (Numeral.length_of_scan hscan)).imp ?_
    rintro cs' rest' ⟨hnumber, hfirst⟩
    obtain ⟨cs', rfl⟩ := List.head?_eq_some_iff.mp hfirst
    rw [readLeaf_digit hdigit, hnumber]
  | text h =>
    refine .cons '"' ((peeks_readString h).imp fun cs rest h => ?_)
    simp only [readLeaf, h]
    rfl

theorem peeks_skipLeaf {cs rest : List Char} (h : skipLeaf cs = .ok rest) :
    Peeks (fun cs rest => skipLeaf cs = .ok rest) cs rest := by
  unfold skipLeaf at h
  split at h
  · cases h
  · rename_i c cs
    split_ifs at h with hn ht hf hminus hdigit hquote
    · exact .cons c ((peeks_readWord h).imp fun cs rest h => by rw [hn]; exact h)
    · exact .cons c ((peeks_readWord h).imp fun cs rest h => by rw [ht]; exact h)
    · exact .cons c ((peeks_readWord h).imp fun cs rest h => by rw [hf]; exact h)
    · exact .cons c ((peeks_skipNumber h).imp fun cs rest h => by rw [hminus]; exact h)
    · obtain ⟨numeral, hscan⟩ := exists_scan_of_skipNumber h
      refine ((peeks_skipNumber h).first (Numeral.length_of_scan hscan)).imp ?_
      rintro cs' rest' ⟨hnumber, hfirst⟩
      obtain ⟨cs', rfl⟩ := List.head?_eq_some_iff.mp hfirst
      rw [skipLeaf_digit hdigit, hnumber]
    · exact .cons c ((peeks_skipString h).imp fun cs rest h => by rw [hquote]; exact h)

theorem length_of_skipLeaf {cs rest : List Char} (h : skipLeaf cs = .ok rest) :
    rest.length < cs.length := by
  unfold skipLeaf at h
  split at h
  · cases h
  · rename_i c cs
    split_ifs at h with hn ht hf hminus hdigit hquote
    · exact Nat.lt_succ_of_le (peeks_readWord h).length_le
    · exact Nat.lt_succ_of_le (peeks_readWord h).length_le
    · exact Nat.lt_succ_of_le (peeks_readWord h).length_le
    · exact Nat.lt_succ_of_le (peeks_skipNumber h).length_le
    · obtain ⟨numeral, hscan⟩ := exists_scan_of_skipNumber h
      exact Numeral.length_of_scan hscan
    · exact Nat.lt_succ_of_le (peeks_skipString h).length_le

/-! ### Brackets, commas and colons -/

theorem closes_nextItem {first : Bool} {cs rest : List Char}
    (h : nextItem first cs = .ok (.close rest)) :
    Closes (fun cs rest => nextItem first cs = .ok (.close rest)) cs rest := by
  refine (closes_skipBlanks (nextItem_eq_close h)).imp fun cs rest h => ?_
  rw [nextItem, h]
  rfl

/-- What follows starts with the same character after any blanks. -/
theorem peeks_skipBlanks_cons {c : Char} {cs rest : List Char} (h : skipBlanks cs = c :: rest) :
    Peeks (fun cs rest => ∃ tail, rest = c :: tail ∧ skipBlanks cs = c :: tail) cs (c :: rest) := by
  have hblanks := (h ▸ peeks_skipBlanks cs).head
  refine hblanks.imp fun cs' rest' ⟨hcs, hhead⟩ => ?_
  obtain ⟨tail, rfl⟩ := List.head?_eq_some_iff.mp hhead
  exact ⟨tail, rfl, hcs⟩

theorem peeks_nextItem {first : Bool} {cs text : List Char}
    (h : nextItem first cs = .ok (.item text)) :
    Peeks (fun cs text => nextItem first cs = .ok (.item text)) cs text := by
  obtain ⟨⟨c, text, rfl, hc⟩, ⟨rfl, hcs⟩ | ⟨rfl, tail, hcs, htail⟩⟩ := nextItem_eq_item h
  · refine (peeks_skipBlanks_cons hcs).imp ?_
    rintro cs _ ⟨text, rfl, h⟩
    simp only [nextItem, h, if_neg hc, if_pos]
  · refine ((closes_skipBlanks hcs).peeks.then (peeks_skipBlanks_cons htail)).imp ?_
    rintro cs _ ⟨tail, hcs, text, rfl, htail⟩
    simp only [nextItem, hcs, htail, if_neg hc]
    rfl

theorem closes_nextKey {first : Bool} {cs rest : List Char}
    (h : nextKey first cs = .ok (.close rest)) :
    Closes (fun cs rest => nextKey first cs = .ok (.close rest)) cs rest := by
  refine (closes_skipBlanks (nextKey_eq_close h)).imp fun cs rest h => ?_
  rw [nextKey, h]
  rfl

theorem peeks_nextKey {first : Bool} {cs quoted : List Char}
    (h : nextKey first cs = .ok (.item quoted)) :
    Peeks (fun cs quoted => nextKey first cs = .ok (.item quoted)) cs quoted := by
  rcases nextKey_eq_item h with ⟨rfl, hcs⟩ | ⟨rfl, tail, hcs, htail⟩
  · refine (closes_skipBlanks hcs).peeks.imp fun cs quoted h => ?_
    rw [nextKey, h]
    rfl
  · refine ((closes_skipBlanks hcs).peeks.then (closes_skipBlanks htail).peeks).imp ?_
    rintro cs quoted ⟨tail, hcs, htail⟩
    simp only [nextKey, hcs, htail]
    rfl

theorem peeks_readColon {cs text : List Char} (h : readColon cs = .ok text) :
    Peeks (fun cs text => readColon cs = .ok text) cs text := by
  refine (closes_skipBlanks (readColon_eq_ok h)).peeks.imp fun cs text h => ?_
  rw [readColon, h]
  rfl

theorem exists_of_skipKey {cs text : List Char} (h : skipKey cs = .ok text) :
    ∃ quoted cs', skipBlanks cs = '"' :: quoted ∧ skipString quoted = .ok cs' ∧
      readColon cs' = .ok text := by
  unfold skipKey at h
  split at h
  · cases h
  · rename_i c quoted hcs
    split_ifs at h with hquote
    split at h
    · cases h
    · rename_i cs' hskip
      exact ⟨quoted, cs', hquote ▸ hcs, hskip, h⟩

theorem length_of_skipKey {cs text : List Char} (h : skipKey cs = .ok text) :
    text.length < cs.length := by
  obtain ⟨quoted, cs', hcs, hskip, hcolon⟩ := exists_of_skipKey h
  have := length_of_skipBlanks_cons hcs
  have := (peeks_skipString hskip).length_le
  have := length_of_skipBlanks_cons (readColon_eq_ok hcolon)
  omega

theorem peeks_skipKey {cs text : List Char} (h : skipKey cs = .ok text) :
    Peeks (fun cs text => skipKey cs = .ok text) cs text := by
  obtain ⟨quoted, cs', hcs, hskip, hcolon⟩ := exists_of_skipKey h
  refine ((closes_skipBlanks hcs).peeks.then
    ((peeks_skipString hskip).then (peeks_readColon hcolon))).imp ?_
  rintro cs text ⟨quoted, hcs, cs', hskip, hcolon⟩
  simp only [skipKey, hcs, hskip, hcolon, if_pos]

end NamedTree.Json
